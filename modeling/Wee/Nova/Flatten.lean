import Wee.Base.CjsonReplace
import Mathlib.Data.Nat.Find

/-! # Flattening the arguments (`nova_client/nova.c`)

The arguments of a generic call are an object of scalars, so `main` walks over the members and
replaces each array and each object by a string with its text. `cJSON_ReplaceItemInObject` frees the
item that the walk stands on, and the walk then reads the link of the freed item. It also looks the
name up from the front, and so replaces another member when an earlier name is equal up to case. -/

namespace Wee

variable {ν : Type}

/-! ### The loop -/

/-- `cur->next`; `stale` is what reading a freed item gives. -/
def readNext (stale : Nat → Exec (Option Nat)) (h : CjsonHeap ν) (cur : Nat) :
    Exec (Option Nat) :=
  match h.items cur with
  | some _ => .ok (h.links.next cur)
  | none => stale cur

/-- The body of the loop. -/
def flattenItem (printNumber : ν → CStr) (fuel : Nat) (h : CjsonHeap ν) (cur : Nat) :
    Exec (CjsonHeap ν) := do
  let item ← h.load cur
  if item.value.isNested then
    -- the item is handed on by its name, and another one may be found under it
    let (replacement, h) := cjsonCreateString h (cjsonPrintUnformatted printNumber item.value)
    cjsonReplaceItemInObject fuel h item.string replacement
  else return h

/-- The loop, with the items it has been at. -/
def flattenLoop (printNumber : ν → CStr) (stale : Nat → Exec (Option Nat)) :
    Nat → CjsonHeap ν → Option Nat → List Nat → Exec (List Nat × CjsonHeap ν)
  | _, h, none, visited => .ok (visited, h)
  | 0, _, some _, _ => .error .outOfFuel
  | fuel + 1, h, some cur, visited => do
    let h ← flattenItem printNumber fuel h cur
    -- `cur` is read here even if the body has freed it
    let next ← readNext stale h cur
    flattenLoop printNumber stale fuel h next (visited ++ [cur])

/-- The walk of `main` over the members of `root`. -/
def flattenArgs (printNumber : ν → CStr) (stale : Nat → Exec (Option Nat)) (fuel : Nat)
    (h : CjsonHeap ν) : Exec (List Nat × CjsonHeap ν) :=
  flattenLoop printNumber stale fuel h h.child []

/-- The items of the object that `cJSON_Parse` makes of the members, in the order of their
allocation. -/
def parsedObject (ms : List (CStr × CjsonValue ν)) : CjsonHeap ν where
  child := (List.range ms.length)[0]?
  links := {
    next := fun p => (List.range ms.length)[p + 1]?
    prev := fun p => if p = 0 then none else some (p - 1) }
  items p := ms[p]?.map memberItem
  brk := ms.length

/-! ### What the loop is for -/

/-- A member, flattened: an array or an object is replaced by its text. -/
def flatMember (printNumber : ν → CStr) (m : CStr × CjsonValue ν) : CStr × CjsonValue ν :=
  if m.2.isNested then (m.1, .string (cjsonPrintUnformatted printNumber m.2)) else m

/-- The loop is at every member, one after the other, and flattens them in place. -/
def Flattens (printNumber : ν → CStr) (stale : Nat → Exec (Option Nat)) (h : CjsonHeap ν)
    (xs : List Nat) (ms : List (CStr × CjsonValue ν)) : Prop :=
  Settles (fun fuel => flattenArgs printNumber stale fuel h) fun r =>
    r.1 = xs ∧ ∃ ys, r.2.Holds ys (ms.map (flatMember printNumber))

/-- No member is an array or an object but possibly the last one, and the name of that one is not
that of an earlier member up to case. -/
def OnlyLastNested (ms : List (CStr × CjsonValue ν)) : Prop :=
  ∀ i m, ms[i]? = some m → m.2.isNested = true →
    i + 1 = ms.length ∧ ∀ j < i, ∀ a, ms[j]? = some a → ¬ SameName m.1 a.1

/-- Some array or object has the name of an earlier member, up to case. -/
def Shadowed (ms : List (CStr × CjsonValue ν)) : Prop :=
  ∃ (i j : Nat) (a b : CStr × CjsonValue ν), j < i ∧ ms[i]? = some a ∧ a.2.isNested = true ∧
    ms[j]? = some b ∧ SameName a.1 b.1

section

variable {printNumber : ν → CStr} {stale : Nat → Exec (Option Nat)} {h h' : CjsonHeap ν}
  {xs visited : List Nat} {ms : List (CStr × CjsonValue ν)} {m : CStr × CjsonValue ν}
  {x i k fuel : Nat}

/-- The members of a parsed object. -/
theorem parsedObject_holds (ms : List (CStr × CjsonValue ν)) :
    (parsedObject ms).Holds (List.range ms.length) ms where
  line := {
    head := rfl
    next := fun i x hx => by
      obtain ⟨hlt, rfl⟩ := List.getElem?_eq_some_iff.mp hx
      rw [List.getElem_range]
      rfl
    prev_head := fun x hx => by
      obtain ⟨hlt, rfl⟩ := List.getElem?_eq_some_iff.mp hx
      rw [List.getElem_range]
      rfl
    prev := fun i x hx => by
      obtain ⟨hlt, rfl⟩ := List.getElem?_eq_some_iff.mp hx
      rw [List.length_range] at hlt
      rw [List.getElem_range, List.getElem?_range (by omega)]
      rfl
    nodup := List.nodup_range }
  items := by
    apply List.ext_getElem?
    intro i
    rw [List.getElem?_map, List.getElem?_map]
    by_cases hi : i < ms.length
    · rw [List.getElem?_range hi, List.getElem?_eq_getElem hi]
      exact congrArg (fun o => some (Option.map memberItem o)) (List.getElem?_eq_getElem hi)
    · rw [List.getElem?_eq_none (by rw [List.length_range]; omega),
        List.getElem?_eq_none (by omega)]
      rfl
  fresh p hp := congrArg (Option.map memberItem) (List.getElem?_eq_none hp)

/-- The link of an item that is there. -/
theorem readNext_of_items {c : CjsonItem ν} (hc : h.items x = some c) :
    readNext stale h x = .ok (h.links.next x) := by
  rw [readNext, hc]

/-- The link of a freed item. -/
theorem readNext_freed (hnone : h.items x = none) : readNext stale h x = stale x := by
  rw [readNext, hnone]

/-- A scalar is left alone. -/
theorem flattenItem_flat (H : h.Holds xs ms) (hx : xs[i]? = some x) (hm : ms[i]? = some m)
    (hflat : m.2.isNested = false) : flattenItem printNumber fuel h x = .ok h := by
  rw [flattenItem, CjsonHeap.load_of_items (H.items_eq hx hm), exec_ok_bind]
  exact if_neg (by rw [memberItem, hflat]; exact Bool.false_ne_true)

/-- **An array or an object** has the first member with its name up to case replaced by its
text. -/
theorem flattenItem_nested (printNumber : ν → CStr) (H : h.Holds xs ms) (hx : xs[i]? = some x)
    (hm : ms[i]? = some m) (hnested : m.2.isNested = true) :
    ∃ k a h' y, k ≤ i ∧ ms[k]? = some a ∧ SameName m.1 a.1 ∧
      (∀ j < k, ∀ b, ms[j]? = some b → ¬ SameName m.1 b.1) ∧
      (∀ fuel, i < fuel → flattenItem printNumber fuel h x = .ok h') ∧
      h'.Holds (xs.set k y) (ms.set k (flatMember printNumber m)) ∧
      ∀ z, xs[k]? = some z → h'.items z = none := by
  classical
  have hex : ∃ (k : Nat) (a : CStr × CjsonValue ν), ms[k]? = some a ∧ SameName m.1 a.1 :=
    ⟨i, m, hm, rfl⟩
  obtain ⟨a, ha, hsame⟩ := Nat.find_spec hex
  have hle : Nat.find hex ≤ i := Nat.find_min' hex ⟨m, hm, rfl⟩
  have hfirst (j : Nat) (hj : j < Nat.find hex) (b : CStr × CjsonValue ν) (hb : ms[j]? = some b) :
      ¬ SameName m.1 b.1 := fun hs => Nat.find_min hex hj ⟨b, hb, hs⟩
  obtain ⟨h', y, hrun, H', hfreed⟩ :=
    H.replaceItemInObject ha hsame hfirst (cjsonPrintUnformatted printNumber m.2)
  refine ⟨Nat.find hex, a, h', y, hle, ha, hsame, hfirst, fun fuel hfuel => ?_, ?_, hfreed⟩
  · rw [flattenItem, CjsonHeap.load_of_items (H.items_eq hx hm), exec_ok_bind]
    exact (if_pos hnested).trans (hrun fuel (Nat.lt_of_le_of_lt hle hfuel))
  · rw [flatMember, if_pos hnested]
    exact H'

/-! ### Runs -/

/-- One round on a scalar. -/
theorem flattenLoop_flat (H : h.Holds xs ms) (hx : xs[i]? = some x) (hm : ms[i]? = some m)
    (hflat : m.2.isNested = false) :
    flattenLoop printNumber stale (fuel + 1) h (some x) visited
      = flattenLoop printNumber stale fuel h xs[i + 1]? (visited ++ [x]) := by
  rw [flattenLoop, flattenItem_flat H hx hm hflat, exec_ok_bind,
    readNext_of_items (H.items_eq hx hm), exec_ok_bind, H.line.next i x hx]

/-- **The rounds on scalars** change nothing. The induction is on their number. -/
theorem flattenArgs_flat (H : h.Holds xs ms) (hi : i ≤ ms.length)
    (hflat : ∀ j < i, ∀ a, ms[j]? = some a → a.2.isNested = false) (fuel : Nat) :
    flattenArgs printNumber stale (fuel + i) h
      = flattenLoop printNumber stale fuel h xs[i]? (xs.take i) := by
  induction i generalizing fuel with
  | zero => rw [flattenArgs, H.line.head, List.take_zero, Nat.add_zero]
  | succ i ih =>
    have hlt : i < ms.length := hi
    have hm : ms[i]? = some ms[i] := List.getElem?_eq_getElem hlt
    obtain ⟨x, hx⟩ := H.exists_node hm
    have htake : xs.take (i + 1) = xs.take i ++ [x] := by
      rw [List.take_add_one, hx, Option.toList_some]
    rw [show fuel + (i + 1) = fuel + 1 + i by omega,
      ih (Nat.le_of_succ_le hi) (fun j hj => hflat j (Nat.lt_succ_of_lt hj)), hx,
      flattenLoop_flat H hx hm (hflat i (Nat.lt_succ_self i) _ hm), htake]

/-- A scalar is flat. -/
theorem flatMember_of_flat (hflat : m.2.isNested = false) : flatMember printNumber m = m := by
  rw [flatMember, if_neg (by rw [hflat]; exact Bool.false_ne_true)]

/-- Arguments without arrays and objects are flat. -/
theorem flattens_of_flat (H : h.Holds xs ms) (hflat : ∀ m ∈ ms, m.2.isNested = false) :
    Flattens printNumber stale h xs ms := by
  have hmap : ms.map (flatMember printNumber) = ms := by
    exact (List.map_congr_left fun m hm => flatMember_of_flat (hflat m hm)).trans ms.map_id
  have hend : xs[ms.length]? = none := List.getElem?_eq_none (Nat.le_of_eq H.length_eq)
  refine ⟨ms.length, (xs, h), fun fuel hfuel => ?_, rfl, xs, hmap.symm ▸ H⟩
  obtain ⟨fuel, rfl⟩ := Nat.exists_eq_add_of_le' hfuel
  show flattenArgs printNumber stale (fuel + ms.length) h = _
  rw [flattenArgs_flat H (Nat.le_refl _) (fun j _ a ha => hflat a (List.mem_of_getElem? ha)), hend,
    List.take_of_length_le (Nat.le_of_eq H.length_eq)]
  cases fuel <;> rfl

/-- Flattening keeps the name. -/
theorem flatMember_name (m : CStr × CjsonValue ν) : (flatMember printNumber m).1 = m.1 := by
  rw [flatMember]
  split_ifs <;> rfl

/-- Flattening leaves no array and no object. -/
theorem flatMember_flat (m : CStr × CjsonValue ν) :
    (flatMember printNumber m).2.isNested = false := by
  rw [flatMember]
  split_ifs with hnested
  · rfl
  · exact Bool.eq_false_iff.mpr hnested

/-- **What is shadowed stays shadowed**: a replacement is made at the first place of its name. -/
theorem Shadowed.set {a c : CStr × CjsonValue ν} (hs : Shadowed ms) (ha : ms[k]? = some a)
    (hsame : SameName c.1 a.1) (hfirst : ∀ j < k, ∀ b, ms[j]? = some b → ¬ SameName c.1 b.1) :
    Shadowed (ms.set k c) := by
  obtain ⟨i, j, d, b, hji, hd, hnested, hb, hdb⟩ := hs
  -- the shadowed member is not the first of its name
  have hki : k ≠ i := by
    rintro rfl
    obtain rfl : a = d := Option.some.inj (ha.symm.trans hd)
    exact hfirst j hji b hb (hsame.trans hdb)
  obtain ⟨hlt, -⟩ := List.getElem?_eq_some_iff.mp ha
  by_cases hkj : k = j
  · subst hkj
    obtain rfl : a = b := Option.some.inj (ha.symm.trans hb)
    refine ⟨i, k, d, c, hji, ?_, hnested, List.getElem?_set_self hlt, hdb.trans hsame.symm⟩
    rwa [List.getElem?_set_ne hki]
  · refine ⟨i, j, d, b, hji, ?_, hnested, ?_, hdb⟩
    · rwa [List.getElem?_set_ne hki]
    · rwa [List.getElem?_set_ne hkj]

/-- Flattened members are not shadowed. -/
theorem not_shadowed_flat : ¬ Shadowed (ms.map (flatMember printNumber)) := by
  rintro ⟨i, j, a, b, -, ha, hnested, -, -⟩
  rw [List.getElem?_map] at ha
  obtain ⟨m, -, rfl⟩ := Option.map_eq_some_iff.mp ha
  rw [flatMember_flat] at hnested
  cases hnested

/-- **One round on shadowed members** leaves them shadowed, whichever of them it replaces; the link
it goes on by is that of the next item or that of a freed one. -/
theorem flattenItem_shadowed (printNumber : ν → CStr) (stale : Nat → Exec (Option Nat))
    (H : h.Holds xs ms) (hs : Shadowed ms) (hx : xs[i]? = some x) (hm : ms[i]? = some m)
    (hnested : m.2.isNested = true) :
    ∃ h' ys ns, (∀ fuel, i < fuel → flattenItem printNumber fuel h x = .ok h') ∧
      h'.Holds ys ns ∧ Shadowed ns ∧ ns.length = ms.length ∧
      (readNext stale h' x = stale x ∨ readNext stale h' x = .ok ys[i + 1]?) := by
  obtain ⟨k, a, h', y, hki, ha, hsame, hfirst, hrun, H', hfreed⟩ :=
    flattenItem_nested printNumber H hx hm hnested
  have hs' : Shadowed (ms.set k (flatMember printNumber m)) :=
    hs.set ha (by rwa [flatMember_name]) (by rwa [flatMember_name])
  refine ⟨h', xs.set k y, _, hrun, H', hs', List.length_set, ?_⟩
  by_cases hk : k = i
  · -- the item the loop is at is freed
    exact .inl (readNext_freed (hfreed x (hk ▸ hx)))
  · -- another item is freed, and the loop goes on
    have hx' : (xs.set k y)[i]? = some x := by rwa [List.getElem?_set_ne hk]
    have hm' : (ms.set k (flatMember printNumber m))[i]? = some m := by
      rwa [List.getElem?_set_ne hk]
    right
    rw [readNext_of_items (H'.items_eq hx' hm'), H'.line.next i x hx']

/-- **A shadowed array or object is never replaced**, however far the loop comes. The induction is
on the members left. -/
theorem flattenLoop_shadowed (hstale : ∀ p, stale p = .ok none ∨ ∃ e, stale p = .error e)
    (H : h.Holds xs ms) (hs : Shadowed ms) {n : Nat} (hn : ms.length = i + n)
    (hfuel : ms.length + n < fuel) {r : List Nat × CjsonHeap ν}
    (hr : flattenLoop printNumber stale fuel h xs[i]? visited = .ok r) :
    ∃ ys ns, r.2.Holds ys ns ∧ Shadowed ns := by
  obtain ⟨fuel, rfl⟩ := Nat.exists_eq_succ_of_ne_zero (Nat.ne_of_gt (Nat.zero_lt_of_lt hfuel))
  induction n generalizing h xs ms i visited fuel with
  | zero =>
    have hend : xs[i]? = none := List.getElem?_eq_none (by rw [H.length_eq]; omega)
    rw [hend, flattenLoop] at hr
    cases hr
    exact ⟨xs, ms, H, hs⟩
  | succ n ih =>
    have hlt : i < ms.length := by omega
    have hm : ms[i]? = some ms[i] := List.getElem?_eq_getElem hlt
    obtain ⟨x, hx⟩ := H.exists_node hm
    obtain ⟨fuel, rfl⟩ := Nat.exists_eq_succ_of_ne_zero (n := fuel) (by omega)
    rw [hx] at hr
    cases hnested : ms[i].2.isNested with
    | false =>
      rw [flattenLoop_flat H hx hm hnested] at hr
      exact ih H hs (i := i + 1) (by omega) fuel (by omega) hr
    | true =>
      obtain ⟨h', ys, ns, hrun, H', hs', hlen, hnext⟩ :=
        flattenItem_shadowed printNumber stale H hs hx hm hnested
      rw [flattenLoop, hrun (fuel + 1) (by omega), exec_ok_bind] at hr
      rcases hnext with hfreed | hnext
      · rw [hfreed] at hr
        rcases hstale x with hnone | ⟨e, herror⟩
        · rw [hnone, exec_ok_bind, flattenLoop] at hr
          cases hr
          exact ⟨ys, ns, H', hs'⟩
        · rw [herror] at hr
          cases hr
      · rw [hnext, exec_ok_bind] at hr
        exact ih H' hs' (i := i + 1) (by omega) fuel (by omega) hr

/-- Where members are nested, one of them is the first. -/
theorem exists_first_nested (hm : m ∈ ms) (hnested : m.2.isNested = true) :
    ∃ (i : Nat) (a : CStr × CjsonValue ν), ms[i]? = some a ∧ a.2.isNested = true ∧
      ∀ j < i, ∀ b, ms[j]? = some b → b.2.isNested = false := by
  classical
  obtain ⟨k, hk⟩ := List.getElem?_of_mem hm
  have hex : ∃ (i : Nat) (a : CStr × CjsonValue ν), ms[i]? = some a ∧ a.2.isNested = true :=
    ⟨k, m, hk, hnested⟩
  obtain ⟨a, ha, hnested'⟩ := Nat.find_spec hex
  refine ⟨Nat.find hex, a, ha, hnested', fun j hj b hb => ?_⟩
  exact Bool.eq_false_iff.mpr fun hb' => Nat.find_min hex hj ⟨b, hb, hb'⟩

/-- **The first array or object**, when its name is new: it is replaced, and then the link of the
freed item is read. -/
theorem flattenArgs_first (printNumber : ν → CStr) (stale : Nat → Exec (Option Nat))
    (H : h.Holds xs ms) (hm : ms[i]? = some m) (hnested : m.2.isNested = true)
    (hflat : ∀ j < i, ∀ a, ms[j]? = some a → a.2.isNested = false) (hns : ¬ Shadowed ms) :
    ∃ h' x y, h'.Holds (xs.set i y) (ms.set i (flatMember printNumber m)) ∧
      ∀ fuel, i < fuel → flattenArgs printNumber stale (fuel + 1 + i) h
        = stale x >>= fun next =>
          flattenLoop printNumber stale fuel h' next (xs.take (i + 1)) := by
  obtain ⟨x, hx⟩ := H.exists_node hm
  obtain ⟨hlt, -⟩ := List.getElem?_eq_some_iff.mp hm
  obtain ⟨k, a, h', y, hki, ha, hsame, -, hrun, H', hfreed⟩ :=
    flattenItem_nested printNumber H hx hm hnested
  -- nothing before it has its name, so it is the one that is found
  obtain rfl : k = i := by
    by_contra hne
    exact hns ⟨i, k, m, a, Nat.lt_of_le_of_ne hki hne, hm, hnested, ha, hsame⟩
  have htake : xs.take (k + 1) = xs.take k ++ [x] := by
    rw [List.take_add_one, hx, Option.toList_some]
  refine ⟨h', x, y, H', fun fuel hfuel => ?_⟩
  rw [flattenArgs_flat H (Nat.le_of_lt hlt) hflat, hx, flattenLoop, hrun fuel hfuel, exec_ok_bind,
    readNext_freed (hfreed x hx), htake]

/-- A shadowed array or object is left as it is. -/
theorem not_flattens_of_shadowed
    (hstale : ∀ p, stale p = .ok none ∨ ∃ e, stale p = .error e) (H : h.Holds xs ms)
    (hs : Shadowed ms) : ¬ Flattens printNumber stale h xs ms := by
  rintro ⟨N, r, hrun, -, ys, K⟩
  have hr : flattenArgs printNumber stale (N + (ms.length + ms.length + 1)) h = .ok r :=
    hrun _ (Nat.le_add_right N _)
  rw [flattenArgs, H.line.head] at hr
  obtain ⟨zs, ns, K', hs'⟩ :=
    flattenLoop_shadowed hstale H hs (i := 0) (n := ms.length) (by omega) (by omega) hr
  obtain rfl := (K.unique K').2
  exact not_shadowed_flat hs'

/-- **When the freed item is not readable**, no array and no object is survived. -/
theorem not_flattens_of_fault {e : Fault} (H : h.Holds xs ms) (hm : m ∈ ms)
    (hnested : m.2.isNested = true) : ¬ Flattens printNumber (fun _ => .error e) h xs ms := by
  by_cases hs : Shadowed ms
  · exact not_flattens_of_shadowed (fun _ => .inr ⟨e, rfl⟩) H hs
  · obtain ⟨i, a, ha, hnested', hflat⟩ := exists_first_nested hm hnested
    obtain ⟨h', x, y, -, hrun⟩ :=
      flattenArgs_first printNumber (fun _ => .error e) H ha hnested' hflat hs
    rintro ⟨N, r, hr, -⟩
    have hok : flattenArgs printNumber (fun _ => .error e) (N + i + 1 + 1 + i) h = .ok r :=
      hr _ (by omega)
    rw [hrun (N + i + 1) (by omega)] at hok
    cases hok

/-- **When the freed item still has the null link** that was stored in it, the loop ends at the
first array or object. -/
theorem flattens_null_iff (H : h.Holds xs ms) (hm : ms[i]? = some m) (hnested : m.2.isNested = true)
    (hflat : ∀ j < i, ∀ a, ms[j]? = some a → a.2.isNested = false) (hns : ¬ Shadowed ms) :
    Flattens printNumber (fun _ => .ok none) h xs ms ↔ i + 1 = ms.length := by
  obtain ⟨hlt, -⟩ := List.getElem?_eq_some_iff.mp hm
  obtain ⟨h', x, y, H', hrun⟩ :=
    flattenArgs_first printNumber (fun _ => .ok none) H hm hnested hflat hns
  have hend (fuel : Nat) (hfuel : i + 1 + 1 + i ≤ fuel) :
      flattenArgs printNumber (fun _ => .ok none) fuel h = .ok (xs.take (i + 1), h') := by
    obtain ⟨n, rfl⟩ := Nat.exists_eq_add_of_le hfuel
    rw [show i + 1 + 1 + i + n = i + 1 + n + 1 + i by omega, hrun (i + 1 + n) (by omega),
      exec_ok_bind, flattenLoop]
  rw [Flattens, settles_iff_of_ok hend]
  dsimp only
  constructor
  · rintro ⟨htake, -⟩
    have hlen := congrArg List.length htake
    rw [List.length_take, H.length_eq] at hlen
    omega
  · intro hlast
    refine ⟨List.take_of_length_le (by rw [H.length_eq]; omega), xs.set i y, ?_⟩
    -- all members but the last one are flat already
    have hmap : ms.map (flatMember printNumber) = ms.set i (flatMember printNumber m) := by
      apply List.ext_getElem?
      intro j
      rw [List.getElem?_map, List.getElem?_set]
      split_ifs with hij
      · rw [← hij, hm]
        rfl
      · cases hj : ms[j]? with
        | none => rfl
        | some a =>
          obtain ⟨hjlt, -⟩ := List.getElem?_eq_some_iff.mp hj
          rw [Option.map_some, flatMember_of_flat (hflat j (by omega) a hj)]
    rw [hmap]
    exact H'

/-- **Whatever the link of a freed item reads as**: the arguments are scalars. -/
theorem flattens_always_iff (H : h.Holds xs ms) :
    (∀ stale, Flattens printNumber stale h xs ms) ↔ ∀ m ∈ ms, m.2.isNested = false := by
  constructor
  · intro hall m hm
    apply Bool.eq_false_iff.mpr
    intro hnested
    exact not_flattens_of_fault H hm hnested (hall fun _ => .error .outOfBounds)
  · intro hflat stale
    exact flattens_of_flat H hflat

/-- **When that link still is the null** that was stored: all but the last argument are scalars. -/
theorem flattens_stored_iff (H : h.Holds xs ms) :
    Flattens printNumber (fun _ => .ok none) h xs ms ↔ OnlyLastNested ms := by
  by_cases hflat : ∀ m ∈ ms, m.2.isNested = false
  · refine iff_of_true (flattens_of_flat H hflat) fun i m hm hnested => ?_
    rw [hflat m (List.mem_of_getElem? hm)] at hnested
    cases hnested
  by_cases hs : Shadowed ms
  · refine iff_of_false (not_flattens_of_shadowed (fun _ => .inl rfl) H hs) fun honly => ?_
    obtain ⟨i, j, a, b, hji, ha, hnested, hb, hab⟩ := hs
    exact (honly i a ha hnested).2 j hji b hb hab
  obtain ⟨m, hm, hnested⟩ : ∃ m ∈ ms, m.2.isNested = true := by
    simpa using hflat
  obtain ⟨i, a, ha, hnested, hfirst⟩ := exists_first_nested hm hnested
  rw [flattens_null_iff H ha hnested hfirst hs]
  constructor
  · intro hlast j b hb hb'
    obtain ⟨hlt, -⟩ := List.getElem?_eq_some_iff.mp hb
    -- the first one is the last member, so there is no other
    obtain rfl : j = i := by
      by_contra hne
      rw [hfirst j (by omega) b hb] at hb'
      cases hb'
    exact ⟨hlast, fun k hk c hc hsame => hs ⟨j, k, b, c, hk, hb, hb', hc, hsame⟩⟩
  · intro honly
    exact (honly i a ha hnested).1

end

/-- **The walk over the arguments** is at every member and flattens them in place, whatever the link
of a freed item reads as, exactly when no member is an array or an object. If that link reads as the
null that was stored in it, also when only the last member is one, under a name that is new. -/
theorem nova_flatten_iff (printNumber : ν → CStr) (h : CjsonHeap ν) (xs : List Nat)
    (ms : List (CStr × CjsonValue ν)) (H : h.Holds xs ms) :
    ((∀ stale, Flattens printNumber stale h xs ms) ↔ ∀ m ∈ ms, m.2.isNested = false) ∧
      (Flattens printNumber (fun _ => .ok none) h xs ms ↔ OnlyLastNested ms) :=
  ⟨flattens_always_iff H, flattens_stored_iff H⟩

/-- The arguments `{"xxxId":1,"scope":""}`; a number is its text. -/
def scalarArgs : List (CStr × CjsonValue CStr) :=
  [(⟨asciiBytes "xxxId", by decide⟩, .number ⟨asciiBytes "1", by decide⟩),
    (⟨asciiBytes "scope", by decide⟩, .string ⟨[], List.not_mem_nil⟩)]

/-- The walk over `scalarArgs`. -/
theorem nova_flatten_iff_scalars :
    ((∀ stale, Flattens id stale (parsedObject scalarArgs) [0, 1] scalarArgs) ↔
        ∀ m ∈ scalarArgs, m.2.isNested = false) ∧
      (Flattens id (fun _ => .ok none) (parsedObject scalarArgs) [0, 1] scalarArgs ↔
        OnlyLastNested scalarArgs) :=
  nova_flatten_iff id (parsedObject scalarArgs) [0, 1] scalarArgs (parsedObject_holds scalarArgs)

/-- The arguments `{"query":{"pageNo":1,"pageSize":5}}`. -/
def queryArgs : List (CStr × CjsonValue CStr) :=
  [(⟨asciiBytes "query", by decide⟩, .object
    [(⟨asciiBytes "pageNo", by decide⟩, .number ⟨asciiBytes "1", by decide⟩),
      (⟨asciiBytes "pageSize", by decide⟩, .number ⟨asciiBytes "5", by decide⟩)])]

/-- The arguments `{"a":[],"b":[]}`. -/
def arrayArgs : List (CStr × CjsonValue CStr) :=
  [(⟨asciiBytes "a", by decide⟩, .array []), (⟨asciiBytes "b", by decide⟩, .array [])]

/-- The arguments `{"a":1,"A":[]}`. -/
def caseArgs : List (CStr × CjsonValue CStr) :=
  [(⟨asciiBytes "a", by decide⟩, .number ⟨asciiBytes "1", by decide⟩),
    (⟨asciiBytes "A", by decide⟩, .array [])]

/-- One nested argument is not survived when the freed item is not readable; of two the second is
not reached; and a scalar is replaced in the place of an array. -/
theorem nova_flatten_fails :
    (¬ ∀ stale, Flattens id stale (parsedObject queryArgs) [0] queryArgs) ∧
      ¬ Flattens id (fun _ => .ok none) (parsedObject arrayArgs) [0, 1] arrayArgs ∧
      ¬ Flattens id (fun _ => .ok none) (parsedObject caseArgs) [0, 1] caseArgs := by
  refine ⟨fun hall => ?_, fun hnull => ?_, fun hnull => ?_⟩
  · have hflat := (flattens_always_iff (parsedObject_holds queryArgs)).mp hall
    exact absurd (hflat _ List.mem_cons_self) (by decide)
  · have honly := (flattens_stored_iff (parsedObject_holds arrayArgs)).mp hnull
    exact absurd (honly 0 _ rfl rfl).1 (by decide)
  · have honly := (flattens_stored_iff (parsedObject_holds caseArgs)).mp hnull
    exact (honly 1 _ rfl rfl).2 0 Nat.one_pos _ rfl (by decide)

end Wee
