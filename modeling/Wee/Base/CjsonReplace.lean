import Wee.Base.CjsonItems

/-! # Replacing a member of an object

`Holds h xs ms` says that the items of the object are those at `xs`, in this order, and hold the
members `ms`. The look-up finds the first member whose name is equal up to case, and
`cJSON_ReplaceItemInObject` replaces that one: at its index stands the new item, under the name that
was looked up, and the old item is freed. -/

namespace Wee

variable {ν : Type} {h h' : CjsonHeap ν} {xs ys : List Nat} {ms ns : List (CStr × CjsonValue ν)}
  {m : CStr × CjsonValue ν} {item : CjsonItem ν} {p x y i k : Nat} {fuel : Nat}

/-- The item of a member. -/
def memberItem (m : CStr × CjsonValue ν) : CjsonItem ν := { string := some m.1, value := m.2 }

/-- The members of the object are `ms`, in the items at `xs`. -/
structure CjsonHeap.Holds (h : CjsonHeap ν) (xs : List Nat) (ms : List (CStr × CjsonValue ν)) :
    Prop where
  /-- The items are linked. -/
  line : h.links.Line h.child xs
  /-- What they hold. -/
  items : xs.map h.items = ms.map fun m => some (memberItem m)
  /-- Nothing is allocated behind `brk`. -/
  fresh : ∀ p, h.brk ≤ p → h.items p = none

namespace CjsonHeap

/-- As many items as members. -/
theorem Holds.length_eq (H : h.Holds xs ms) : xs.length = ms.length := by
  have hlen := congrArg List.length H.items
  rwa [List.length_map, List.length_map] at hlen

/-- The item at an index holds the member at that index. -/
theorem Holds.items_eq (H : h.Holds xs ms) (hx : xs[i]? = some x) (hm : ms[i]? = some m) :
    h.items x = some (memberItem m) := by
  have hi : (xs.map h.items)[i]? = (ms.map fun m => some (memberItem m))[i]? := by rw [H.items]
  rw [List.getElem?_map, List.getElem?_map, hx, hm] at hi
  exact Option.some.inj hi

/-- Each member has an item. -/
theorem Holds.exists_node (H : h.Holds xs ms) (hm : ms[i]? = some m) : ∃ x, xs[i]? = some x := by
  obtain ⟨hlt, -⟩ := List.getElem?_eq_some_iff.mp hm
  have hlt' : i < xs.length := H.length_eq ▸ hlt
  exact ⟨xs[i], List.getElem?_eq_getElem hlt'⟩

/-- Each item holds a member. -/
theorem Holds.exists_member (H : h.Holds xs ms) (hx : xs[i]? = some x) : ∃ m, ms[i]? = some m := by
  obtain ⟨hlt, -⟩ := List.getElem?_eq_some_iff.mp hx
  have hlt' : i < ms.length := H.length_eq ▸ hlt
  exact ⟨ms[i], List.getElem?_eq_getElem hlt'⟩

/-- An item is allocated. -/
theorem Holds.live (H : h.Holds xs ms) (hx : x ∈ xs) : ∃ m, h.items x = some (memberItem m) := by
  obtain ⟨i, hi⟩ := List.getElem?_of_mem hx
  obtain ⟨m, hm⟩ := H.exists_member hi
  exact ⟨m, H.items_eq hi hm⟩

/-- Behind `brk` is no item of the object. -/
theorem Holds.brk_notMem (H : h.Holds xs ms) : h.brk ∉ xs := by
  intro hmem
  obtain ⟨m, hm⟩ := H.live hmem
  rw [H.fresh _ (Nat.le_refl _)] at hm
  cases hm

/-- **The memory tells the members**. -/
theorem Holds.unique (H : h.Holds xs ms) (K : h.Holds ys ns) : xs = ys ∧ ms = ns := by
  obtain rfl := H.line.unique K.line
  have hitems := H.items.symm.trans K.items
  refine ⟨rfl, List.map_injective_iff.mpr (fun a b hab => ?_) hitems⟩
  obtain ⟨hname, hvalue⟩ := CjsonItem.mk.inj (Option.some.inj hab)
  exact Prod.ext (Option.some.inj hname) hvalue

/-- **Frame rule**: the members stay when nothing is done to their items. -/
theorem Holds.frame (H : h.Holds xs ms) (hchild : h'.child = h.child)
    (hnext : ∀ z ∈ xs, h'.links.next z = h.links.next z)
    (hprev : ∀ z ∈ xs, h'.links.prev z = h.links.prev z)
    (hitems : ∀ z ∈ xs, h'.items z = h.items z) (hfresh : ∀ p, h'.brk ≤ p → h'.items p = none) :
    h'.Holds xs ms where
  line := hchild ▸ H.line.frame hnext hprev
  items := (List.map_congr_left hitems).trans H.items
  fresh := hfresh

/-! ### Accesses -/

/-- An access to an allocated item. -/
theorem load_of_items (hp : h.items p = some item) : h.load p = .ok item := by
  rw [load, hp]

/-- `p->next`. -/
theorem next_of_items (hp : h.items p = some item) : h.next p = .ok (h.links.next p) := by
  rw [CjsonHeap.next, load_of_items hp]
  rfl

/-- `p->prev`. -/
theorem prev_of_items (hp : h.items p = some item) : h.prev p = .ok (h.links.prev p) := by
  rw [CjsonHeap.prev, load_of_items hp]
  rfl

variable {o q : Option Nat}

/-- `p->next = q`. -/
theorem setNext_of_items (hp : h.items p = some item) :
    h.setNext p q = .ok { h with links := h.links.setNext p q } := by
  rw [CjsonHeap.setNext, load_of_items hp]
  rfl

/-- `p->prev = q`. -/
theorem setPrev_of_items (hp : h.items p = some item) :
    h.setPrev p q = .ok { h with links := h.links.setPrev p q } := by
  rw [CjsonHeap.setPrev, load_of_items hp]
  rfl

/-- `if (p != NULL) p->next = q`. -/
theorem setNextOf_of_items (ho : ∀ p, o = some p → ∃ c, h.items p = some c) :
    h.setNextOf o q = .ok { h with links := h.links.setNextAt o q } := by
  cases o with
  | none => rfl
  | some p =>
    obtain ⟨c, hc⟩ := ho p rfl
    exact setNext_of_items hc

/-- `if (p != NULL) p->prev = q`. -/
theorem setPrevOf_of_items (ho : ∀ p, o = some p → ∃ c, h.items p = some c) :
    h.setPrevOf o q = .ok { h with links := h.links.setPrevAt o q } := by
  cases o with
  | none => rfl
  | some p =>
    obtain ⟨c, hc⟩ := ho p rfl
    exact setPrev_of_items hc

/-- `cJSON_Delete` of an item that is the last one. -/
theorem cjsonDelete_of_items (hp : h.items p = some item) (hlast : h.links.next p = none)
    (fuel : Nat) : cjsonDelete (fuel + 1) h (some p)
      = .ok { h with items := Function.update h.items p none } := by
  rw [cjsonDelete, next_of_items hp, exec_ok_bind, hlast]
  cases fuel <;> rfl

/-! ### Looking up a name -/

/-- **The look-up** from the item at index `i` ends at the first member behind it with that name.
The induction is on the distance. -/
theorem Holds.getObjectItem (H : h.Holds xs ms) {name : CStr} (hm : ms[i + k]? = some m)
    (hsame : SameName name m.1)
    (hfirst : ∀ j < k, ∀ a, ms[i + j]? = some a → ¬ SameName name a.1) (hfuel : k < fuel) :
    Wee.getObjectItem name fuel h xs[i]? = .ok xs[i + k]? := by
  obtain ⟨fuel, rfl⟩ := Nat.exists_eq_succ_of_ne_zero (Nat.ne_of_gt (Nat.zero_lt_of_lt hfuel))
  induction k generalizing i fuel with
  | zero =>
    rw [Nat.add_zero] at hm ⊢
    obtain ⟨x, hx⟩ := H.exists_node hm
    rw [hx, Wee.getObjectItem, load_of_items (H.items_eq hx hm), exec_ok_bind]
    exact if_neg (not_not.mpr ((caseInsensitiveStrcmp_eq_zero_iff name m.1).mpr hsame))
  | succ k ih =>
    obtain ⟨hlt, -⟩ := List.getElem?_eq_some_iff.mp hm
    have hi : i < ms.length := by omega
    have ha : ms[i]? = some ms[i] := List.getElem?_eq_getElem hi
    obtain ⟨x, hx⟩ := H.exists_node ha
    -- the member at `i` has another name
    have hother := hfirst 0 (Nat.succ_pos k) _ ha
    obtain ⟨fuel, rfl⟩ := Nat.exists_eq_succ_of_ne_zero (n := fuel) (by omega)
    have hindex : i + 1 + k = i + (k + 1) := by omega
    rw [hx, Wee.getObjectItem, load_of_items (H.items_eq hx ha), exec_ok_bind]
    refine (if_pos (mt (caseInsensitiveStrcmp_eq_zero_iff name _).mp hother)).trans ?_
    rw [H.line.next i x hx, ih (i := i + 1) (hindex ▸ hm) (fun j hj a hja => ?_) fuel (by omega),
      hindex]
    exact hfirst (j + 1) (by omega) a (by rwa [show i + (j + 1) = i + 1 + j by omega])

/-! ### Replacing -/

/-- The new item takes the place of the item `x`, which is freed. -/
def replaced (h : CjsonHeap ν) (x y : Nat) : CjsonHeap ν where
  child := if h.child = some x then some y else h.child
  links := h.links.replaceNode x y
  items := Function.update h.items x none
  brk := h.brk

/-- The old item is no longer allocated. -/
theorem replaced_items_self : (h.replaced x y).items x = none := Function.update_self _ _ _

/-- The other items hold what they held. -/
theorem replaced_items_of_ne (hne : p ≠ x) : (h.replaced x y).items p = h.items p :=
  Function.update_of_ne hne _ _

/-- `cJSON_ReplaceItemViaPointer` does what its name says when every item it accesses is
allocated. -/
theorem replaceItemViaPointer_eq {a b : CjsonItem ν} (hx : h.items x = some a)
    (hy : h.items y = some b) (hne : y ≠ x)
    (hnext : ∀ n, h.links.next x = some n → n ≠ y ∧ ∃ c, h.items n = some c)
    (hprev : ∀ n, h.links.prev x = some n → ∃ c, h.items n = some c) (fuel : Nat) :
    cjsonReplaceItemViaPointer (fuel + 1) h (some x) y = .ok (h.replaced x y) := by
  -- the links after each assignment
  let L₁ := (h.links.setNext y (h.links.next x)).setPrev y (h.links.prev x)
  let L₂ := L₁.setPrevAt (L₁.next y) (some y)
  let L₃ := L₂.setNextAt (L₂.prev y) (some y)
  have hnext₁ : L₁.next y = h.links.next x := Links.setNext_next_self
  have hprev₂ : L₂.prev y = h.links.prev x := by
    have hself : L₁.next y ≠ some y := fun heq => (hnext y (hnext₁.symm.trans heq)).1 rfl
    rw [Links.setPrevAt_prev, if_neg hself]
    exact Links.setPrev_prev_self
  -- `cJSON_Delete` stops behind the old item
  have hlast : ((L₃.setNext x none).setPrev x none).next x = none := Links.setNext_next_self
  rw [cjsonReplaceItemViaPointer]
  dsimp only
  rw [if_neg hne]
  refine exec_bind_of_eq (next_of_items hx) (exec_bind_of_eq (setNext_of_items hy) ?_)
  refine exec_bind_of_eq (prev_of_items hx) (exec_bind_of_eq (setPrev_of_items hy) ?_)
  refine exec_bind_of_eq (next_of_items hy) (exec_bind_of_eq (setPrevOf_of_items fun n hn => ?_) ?_)
  · exact (hnext n (hnext₁.symm.trans hn)).2
  refine exec_bind_of_eq (prev_of_items hy) (exec_bind_of_eq (setNextOf_of_items fun n hn => ?_) ?_)
  · exact hprev n (hprev₂.symm.trans hn)
  refine exec_bind_of_eq (setNext_of_items hx) (exec_bind_of_eq (setPrev_of_items hx) ?_)
  apply cjsonDelete_of_items
  · exact hx
  · exact hlast

/-- What the items hold when `y` has taken the place of `x`. -/
theorem Holds.replaced_items (H : h.Holds xs ms) (hx : xs[k]? = some x)
    (hy : h.items y = some (memberItem m)) (hne : y ≠ x) :
    (xs.set k y).map (h.replaced x y).items = (ms.set k m).map fun m => some (memberItem m) := by
  have hset : (ms.set k m).map (fun m => some (memberItem m))
      = (xs.map h.items).set k (some (memberItem m)) := by
    rw [List.map_set, H.items]
  rw [hset]
  apply List.ext_getElem?
  intro j
  rw [List.getElem?_map, List.getElem?_set, List.getElem?_set, List.length_map, List.getElem?_map]
  split_ifs with hj hlt
  · rw [Option.map_some, replaced_items_of_ne hne, hy]
  · rfl
  · cases hz : xs[j]? with
    | none => rfl
    | some z =>
      have hzx : z ≠ x := fun heq => hj (H.line.index_eq hx (heq ▸ hz))
      rw [Option.map_some, Option.map_some, replaced_items_of_ne hzx]

/-- **Replacing an item of the object** by one that is not in it. -/
theorem Holds.replaceItemViaPointer (H : h.Holds xs ms) (hx : xs[k]? = some x)
    (hy : h.items y = some (memberItem m)) (hnot : y ∉ xs) (fuel : Nat) :
    cjsonReplaceItemViaPointer (fuel + 1) h (some x) y = .ok (h.replaced x y) ∧
      (h.replaced x y).Holds (xs.set k y) (ms.set k m) := by
  have hne : y ≠ x := fun heq => hnot (heq ▸ List.mem_of_getElem? hx)
  obtain ⟨a, ha⟩ := H.live (List.mem_of_getElem? hx)
  constructor
  · refine replaceItemViaPointer_eq ha hy hne (fun n hn => ⟨?_, ?_⟩) (fun n hn => ?_) fuel
    · exact fun heq => hnot (heq ▸ H.line.next_mem hx hn)
    · obtain ⟨c, hc⟩ := H.live (H.line.next_mem hx hn)
      exact ⟨_, hc⟩
    · obtain ⟨c, hc⟩ := H.live (H.line.prev_mem hx hn)
      exact ⟨_, hc⟩
  · refine ⟨H.line.replaceNode hx hnot, H.replaced_items hx hy hne, fun p hp => ?_⟩
    by_cases hpx : p = x
    · rw [hpx]
      exact replaced_items_self
    · rw [replaced_items_of_ne hpx]
      exact H.fresh p hp

/-- The new item of `cJSON_CreateString` is not in the object, and the object is as it was. -/
theorem Holds.createString (H : h.Holds xs ms) (text name : CStr) :
    ∃ h', (cjsonCreateString h text).2.setString h.brk name = .ok h' ∧ h'.Holds xs ms ∧
      h'.items h.brk = some (memberItem (name, .string text)) := by
  have hnot := H.brk_notMem
  refine ⟨_, exec_bind_of_eq (load_of_items (Function.update_self _ _ _)) rfl, ?_, ?_⟩
  · refine H.frame rfl (fun z hz => ?_) (fun z hz => ?_) (fun z hz => ?_) (fun p hp => ?_)
    · have hzb : z ≠ h.brk := fun heq => hnot (heq ▸ hz)
      exact (congrFun Links.setPrev_next z).trans (Links.setNext_next_of_ne hzb)
    · have hzb : z ≠ h.brk := fun heq => hnot (heq ▸ hz)
      exact Links.setPrev_prev_of_ne hzb
    · have hzb : z ≠ h.brk := fun heq => hnot (heq ▸ hz)
      exact (Function.update_of_ne hzb _ _).trans (Function.update_of_ne hzb _ _)
    · have hpb : p ≠ h.brk := Nat.ne_of_gt hp
      refine (Function.update_of_ne hpb _ _).trans ((Function.update_of_ne hpb _ _).trans ?_)
      exact H.fresh p (Nat.le_of_succ_le hp)
  · exact Function.update_self _ _ _

/-- **`cJSON_ReplaceItemInObject`** with a new string replaces the first member with that name up
to case; the old item is freed. -/
theorem Holds.replaceItemInObject {a : CStr × CjsonValue ν} {name : CStr} (H : h.Holds xs ms)
    (ha : ms[k]? = some a) (hsame : SameName name a.1)
    (hfirst : ∀ j < k, ∀ b, ms[j]? = some b → ¬ SameName name b.1) (text : CStr) :
    ∃ h' y, (∀ fuel, k < fuel → cjsonReplaceItemInObject fuel (cjsonCreateString h text).2
        (some name) (cjsonCreateString h text).1 = .ok h') ∧
      h'.Holds (xs.set k y) (ms.set k (name, .string text)) ∧
      ∀ x, xs[k]? = some x → h'.items x = none := by
  obtain ⟨h₁, hset, H₁, hnew⟩ := H.createString text name
  obtain ⟨x, hx⟩ := H.exists_node ha
  refine ⟨h₁.replaced x h.brk, h.brk, fun fuel hfuel => ?_, ?_, fun z hz => ?_⟩
  · obtain ⟨fuel, rfl⟩ := Nat.exists_eq_succ_of_ne_zero (Nat.ne_of_gt (Nat.zero_lt_of_lt hfuel))
    -- the look-up starts at the first item
    have hlook : Wee.getObjectItem name (fuel + 1) h₁ h₁.child = .ok (some x) := by
      have h0 := H₁.getObjectItem (i := 0) (k := k) (by rwa [Nat.zero_add]) hsame
        (fun j hj b hb => hfirst j hj b (by rwa [Nat.zero_add] at hb)) hfuel
      rwa [Nat.zero_add, hx, ← H₁.line.head] at h0
    have hreplace := (H₁.replaceItemViaPointer hx hnew H.brk_notMem fuel).1
    exact exec_bind_of_eq hset (exec_bind_of_eq hlook hreplace)
  · exact (H₁.replaceItemViaPointer hx hnew H.brk_notMem 0).2
  · obtain rfl : x = z := Option.some.inj (hx.symm.trans hz)
    exact replaced_items_self

end CjsonHeap

end Wee
