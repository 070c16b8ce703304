import Wee.Ae.LoopSpec

/-! # The registered events

The array by descriptor and the table of the kernel against what is registered for each descriptor.
`maxfd` is the highest descriptor for which something is, also after the search for a new one, and the
kernel watches a descriptor for just what is registered for it, or not at all. -/

namespace Wee

variable {κ δ σ : Type}

/-! ### Masks -/

/-- The order does not matter. -/
theorem AeMask.or_comm (a b : AeMask) : a.or b = b.or a := by
  simp only [AeMask.or, Bool.or_comm]

/-- Nothing is added to nothing. -/
theorem AeMask.or_ne_none {a b : AeMask} (hb : b ≠ aeNone) : a.or b ≠ aeNone := by
  intro h
  apply hb
  obtain ⟨br, bw⟩ := b
  simp only [AeMask.or, aeNone, AeMask.mk.injEq, Bool.or_eq_false_iff] at h ⊢
  exact ⟨h.1.2, h.2.2⟩

/-- From nothing nothing can be taken. -/
@[simp] theorem AeMask.none_without (b : AeMask) : aeNone.without b = aeNone := by
  simp only [AeMask.without, aeNone, Bool.false_and]

/-- What is left was there. -/
theorem AeMask.ne_none_of_without {a b : AeMask} (h : a.without b ≠ aeNone) : a ≠ aeNone := by
  rintro rfl
  exact h (AeMask.none_without b)

/-! ### Registrations -/

/-- What can be called has been stored. -/
structure AeFileEvent.Usable (fe : AeFileEvent κ δ) : Prop where
  /-- What is called for reading. -/
  reader : fe.mask.readable = true → fe.rfileProc.isSome = true
  /-- What is called for writing. -/
  writer : fe.mask.writable = true → fe.wfileProc.isSome = true
  /-- What they are called with. -/
  data : fe.mask ≠ aeNone → fe.clientData.isSome = true

/-- Nothing is registered at the start. -/
theorem usable_unset : (unsetFileEvent : AeFileEvent κ δ).Usable where
  reader h := nomatch h
  writer h := nomatch h
  data h := absurd rfl h

/-- A registration can be called. -/
theorem AeFileEvent.Usable.register {fe : AeFileEvent κ δ} (h : fe.Usable) (mask : AeMask) (proc : κ)
    (clientData : δ) : (fe.register mask proc clientData).Usable where
  reader hr := by
    simp only [AeFileEvent.register, AeMask.or, Bool.or_eq_true] at hr ⊢
    split
    · rfl
    · next hmask => exact h.reader (hr.resolve_right hmask)
  writer hw := by
    simp only [AeFileEvent.register, AeMask.or, Bool.or_eq_true] at hw ⊢
    split
    · rfl
    · next hmask => exact h.writer (hw.resolve_right hmask)
  data _ := rfl

/-- What is left can be called. -/
theorem AeFileEvent.Usable.unregister {fe : AeFileEvent κ δ} (h : fe.Usable) (mask : AeMask) :
    (fe.unregister mask).Usable where
  reader hr := h.reader (Bool.and_eq_true_iff.mp hr).1
  writer hw := h.writer (Bool.and_eq_true_iff.mp hw).1
  data hm := h.data (AeMask.ne_none_of_without hm)

/-- Where nothing is registered nothing can be taken back. -/
theorem AeFileEvent.unregister_of_none {fe : AeFileEvent κ δ} (h : fe.mask = aeNone) (mask : AeMask) :
    fe.unregister mask = fe := by
  obtain ⟨m, r, w, d⟩ := fe
  obtain rfl : m = aeNone := h
  rw [AeFileEvent.unregister, AeMask.none_without]

/-! ### The highest descriptor -/

/-- `m` is the highest of those with `P`, or −1. -/
structure Highest (P : Nat → Prop) (m : Int) : Prop where
  /-- None is higher. -/
  bound : ∀ fd, P fd → (fd : Int) ≤ m
  /-- It is one of them. -/
  reached : m = -1 ∨ ∃ fd : Nat, m = fd ∧ P fd

/-- There is none. -/
theorem highest_none {P : Nat → Prop} (h : ∀ fd, ¬ P fd) : Highest P (-1) where
  bound fd hfd := absurd hfd (h fd)
  reached := .inl rfl

/-- It is −1 where there is none. -/
theorem Highest.eq_neg_one_iff {P : Nat → Prop} {m : Int} (h : Highest P m) :
    m = -1 ↔ ∀ fd, ¬ P fd := by
  constructor
  · rintro rfl fd hfd
    have := h.bound fd hfd
    omega
  · intro hnone
    rcases h.reached with hm | ⟨fd, -, hfd⟩
    · exact hm
    · exact absurd hfd (hnone fd)

/-- One more. -/
theorem Highest.insert {P Q : Nat → Prop} {m : Int} {fd : Nat} (h : Highest P m) (hfd : Q fd)
    (hQ : ∀ d, d ≠ fd → (Q d ↔ P d)) (hPQ : P fd → Q fd) : Highest Q (max m fd) where
  bound d hd := by
    by_cases hdfd : d = fd
    · subst hdfd
      exact le_max_right m d
    · exact (h.bound d ((hQ d hdfd).mp hd)).trans (le_max_left m fd)
  reached := by
    rcases le_total m (fd : Int) with hle | hle
    · exact .inr ⟨fd, max_eq_right hle, hfd⟩
    · rw [max_eq_left hle]
      rcases h.reached with hm | ⟨d, hm, hd⟩
      · exact .inl hm
      · refine .inr ⟨d, hm, ?_⟩
        by_cases hdfd : d = fd
        · subst hdfd
          exact hPQ hd
        · exact (hQ d hdfd).mpr hd

/-- One that is not the highest goes, or stays. -/
theorem Highest.shrink {P Q : Nat → Prop} {m : Int} {fd : Nat} (h : Highest P m)
    (hQ : ∀ d, d ≠ fd → (Q d ↔ P d)) (hQP : Q fd → P fd) (hfd : (fd : Int) ≠ m ∨ Q fd) :
    Highest Q m where
  bound d hd := by
    by_cases hdfd : d = fd
    · subst hdfd
      exact h.bound d (hQP hd)
    · exact h.bound d ((hQ d hdfd).mp hd)
  reached := by
    rcases h.reached with hm | ⟨d, rfl, hd⟩
    · exact .inl hm
    · by_cases hdfd : d = fd
      · subst hdfd
        exact .inr ⟨d, rfl, hfd.resolve_left fun hne => hne rfl⟩
      · exact .inr ⟨d, rfl, (hQ d hdfd).mpr hd⟩

/-! ### The array and the table -/

/-- What keeps `AeSpec` usable. -/
structure AeSpec.FilesWf (a : AeSpec κ δ) : Prop where
  /-- What can be called has been stored. -/
  usable : ∀ fd, (a.file fd).Usable
  /-- What is watched is registered. -/
  watched : ∀ fd, a.watched fd = true → (a.file fd).mask ≠ aeNone
  /-- There is no larger descriptor. -/
  outside : ∀ fd, a.setsize ≤ fd → a.file fd = unsetFileEvent

/-- The array, `maxfd` and the table of the kernel hold what is registered. -/
structure FilesHeld (l : AeEventLoop κ δ) (a : AeSpec κ δ) : Prop where
  /-- The registrations are usable. -/
  wf : a.FilesWf
  /-- The size. -/
  setsize : a.setsize = l.setsize
  /-- The size of the array. -/
  length : l.events.length = l.setsize
  /-- Its entries. -/
  file : ∀ fd, a.file fd = l.events[fd]?.getD unsetFileEvent
  /-- The table. -/
  epoll : l.epoll = a.epoll
  /-- The highest descriptor. -/
  maxfd : Highest (fun fd => (a.file fd).mask ≠ aeNone) l.maxfd

/-- A new loop. -/
theorem filesHeld_new (out : AeOutside) (opened : Nat → Bool) (setsize : Nat) :
    FilesHeld (aeCreateEventLoop out opened setsize : AeEventLoop κ δ) (.new out opened setsize) where
  wf := ⟨fun _ => usable_unset, fun _ h => (nomatch h), fun _ _ => rfl⟩
  setsize := rfl
  length := List.length_replicate
  file fd := by
    rw [aeCreateEventLoop, List.getElem?_replicate]
    split <;> rfl
  epoll := rfl
  maxfd := highest_none fun _ h => h rfl

section
variable {l : AeEventLoop κ δ} {a : AeSpec κ δ}

/-- The entry of a descriptor. -/
theorem FilesHeld.getElem? (h : FilesHeld l a) {fd : Nat} (hfd : fd < l.setsize) :
    l.events[fd]? = some (a.file fd) := by
  have hlt : fd < l.events.length := h.length.symm ▸ hfd
  rw [h.file, List.getElem?_eq_getElem hlt, Option.getD_some]

/-- The entry of a descriptor can be loaded. -/
theorem FilesHeld.load (h : FilesHeld l a) {fd : Nat} (hfd : fd < l.setsize) :
    cellLoad l.events fd = .ok (a.file fd) :=
  cellLoad_of_some (h.getElem? hfd)

/-- Where something is registered the descriptor is not too large. -/
theorem AeSpec.FilesWf.lt_of_mask (h : a.FilesWf) {fd : Nat} (hfd : (a.file fd).mask ≠ aeNone) :
    fd < a.setsize := by
  by_contra hge
  exact hfd (congrArg AeFileEvent.mask (h.outside fd (not_lt.mp hge)))

end

/-! ### One entry -/

section
variable {l : AeEventLoop κ δ} {a : AeSpec κ δ} {fd d : Nat} {fe : AeFileEvent κ δ} {watch : Bool}

/-- The entry that is stored. -/
@[simp] theorem AeSpec.setFile_file_self : (a.setFile fd fe watch).file fd = fe :=
  Function.update_self ..

/-- The other entries. -/
@[simp] theorem AeSpec.setFile_file_of_ne (h : d ≠ fd) : (a.setFile fd fe watch).file d = a.file d :=
  Function.update_of_ne h ..

/-- The watch that is stored. -/
@[simp] theorem AeSpec.setFile_watched_self : (a.setFile fd fe watch).watched fd = watch :=
  Function.update_self ..

/-- The other watches. -/
@[simp] theorem AeSpec.setFile_watched_of_ne (h : d ≠ fd) :
    (a.setFile fd fe watch).watched d = a.watched d :=
  Function.update_of_ne h ..

/-- Storing what is there. -/
theorem AeSpec.setFile_eq_self (hfe : fe = a.file fd) (hwatch : watch = a.watched fd) :
    a.setFile fd fe watch = a := by
  rw [AeSpec.setFile, hfe, hwatch, Function.update_eq_self, Function.update_eq_self]

/-- An entry that is usable, and watched only if something is registered. -/
theorem AeSpec.FilesWf.setFile (h : a.FilesWf) (husable : fe.Usable)
    (hwatch : watch = true → fe.mask ≠ aeNone) (houtside : a.setsize ≤ fd → fe = unsetFileEvent) :
    (a.setFile fd fe watch).FilesWf where
  usable d := by
    by_cases hd : d = fd
    · rw [hd, AeSpec.setFile_file_self]
      exact husable
    · rw [AeSpec.setFile_file_of_ne hd]
      exact h.usable d
  watched d := by
    by_cases hd : d = fd
    · rw [hd, AeSpec.setFile_watched_self, AeSpec.setFile_file_self]
      exact hwatch
    · rw [AeSpec.setFile_watched_of_ne hd, AeSpec.setFile_file_of_ne hd]
      exact h.watched d
  outside d hd := by
    by_cases hdfd : d = fd
    · rw [hdfd, AeSpec.setFile_file_self]
      exact houtside (hdfd ▸ hd)
    · rw [AeSpec.setFile_file_of_ne hdfd]
      exact h.outside d hd

/-- The table after a change of one entry. -/
theorem AeSpec.setFile_epoll : (a.setFile fd fe watch).epoll =
    { a.epoll with interest := fun d =>
        if d = fd then if watch then some fe.mask else none else a.epoll.interest d } := by
  rw [AeSpec.epoll, AeSpec.epoll, Epoll.mk.injEq]
  refine ⟨rfl, ?_⟩
  funext d
  by_cases hd : d = fd
  · rw [if_pos hd, hd, AeSpec.setFile_watched_self, AeSpec.setFile_file_self]
  · rw [if_neg hd, AeSpec.setFile_watched_of_ne hd, AeSpec.setFile_file_of_ne hd]

/-- The entries of the array after a store. -/
theorem FilesHeld.file_set (h : FilesHeld l a) (hfd : fd < l.setsize) (d : Nat) :
    (a.setFile fd fe watch).file d = (l.events.set fd fe)[d]?.getD unsetFileEvent := by
  have hlt : fd < l.events.length := h.length.symm ▸ hfd
  by_cases hd : d = fd
  · rw [hd, AeSpec.setFile_file_self, List.getElem?_set_self hlt, Option.getD_some]
  · rw [AeSpec.setFile_file_of_ne hd, List.getElem?_set_ne (Ne.symm hd), h.file]

/-- Storing an entry in the array. -/
theorem FilesHeld.setFile (h : FilesHeld l a) (hfd : fd < l.setsize)
    (hwf : (a.setFile fd fe watch).FilesWf) {maxfd : Int}
    (hmaxfd : Highest (fun d => ((a.setFile fd fe watch).file d).mask ≠ aeNone) maxfd) :
    FilesHeld { l with
      events := l.events.set fd fe, epoll := (a.setFile fd fe watch).epoll, maxfd := maxfd }
      (a.setFile fd fe watch) where
  wf := hwf
  setsize := h.setsize
  length := (List.length_set ..).trans h.length
  file := h.file_set hfd
  epoll := rfl
  maxfd := hmaxfd

end

/-! ### Registering -/

section
variable {l : AeEventLoop κ δ} {a : AeSpec κ δ} {fd : Nat} {mask : AeMask} {proc : κ}
  {clientData : δ}

/-- What the kernel is asked for, and when it refuses. -/
theorem aeApiAddEvent_eq (h : FilesHeld l a) (refused : Bool) (proc : κ) (clientData : δ) :
    aeApiAddEvent l.epoll (a.file fd).mask fd mask refused =
      if refused = false ∧ a.opened fd = true ∧ a.watched fd = ((a.file fd).mask != aeNone) then
        some (a.setFile fd ((a.file fd).register mask proc clientData) true).epoll
      else none := by
  have hwatched : (a.epoll.interest fd).isSome = a.watched fd := by
    simp only [AeSpec.epoll]
    cases a.watched fd <;> rfl
  have hopened : a.epoll.opened fd = a.opened fd := rfl
  simp only [aeApiAddEvent, h.epoll, hwatched, hopened]
  by_cases hok : refused = false ∧ a.opened fd = true ∧ a.watched fd = ((a.file fd).mask != aeNone)
  · rw [if_pos hok, AeSpec.setFile_epoll, AeFileEvent.register, AeMask.or_comm]
    obtain ⟨rfl, hopen, hsame⟩ := hok
    simp only [hopen, hsame, Bool.not_true, Bool.or_self, bne_self_eq_false, Bool.false_eq_true,
      if_false, if_true]
  · rw [if_neg hok, if_pos]
    simp only [not_and, ← ne_eq] at hok
    cases refused with
    | true => rfl
    | false =>
      cases hopen : a.opened fd with
      | false => rfl
      | true => exact bne_iff_ne.mpr (hok rfl hopen)

/-- **Registering** does what it is for. -/
theorem aeCreateFileEvent_filesHeld (h : FilesHeld l a) (hmask : mask ≠ aeNone) (refused : Bool) :
    Returns (aeCreateFileEvent l fd mask proc clientData refused) fun p =>
      p.1 = (a.createFileEvent fd mask proc clientData refused).1 ∧
      FilesHeld p.2 (a.createFileEvent fd mask proc clientData refused).2 ∧
      ∃ events epoll maxfd, p.2 = { l with events := events, epoll := epoll, maxfd := maxfd } := by
  rw [aeCreateFileEvent, AeSpec.createFileEvent, h.setsize]
  by_cases hfd : fd < l.setsize
  · rw [if_neg (not_le.mpr hfd), h.load hfd, exec_ok_bind, aeApiAddEvent_eq h refused proc clientData]
    by_cases hok : refused = false ∧ a.opened fd = true ∧
        a.watched fd = ((a.file fd).mask != aeNone)
    · have hlt : fd < l.events.length := h.length.symm ▸ hfd
      simp only [if_pos hok, hfd, true_and]
      rw [cellStore_of_lt hlt, exec_ok_bind]
      refine returns_ok ⟨rfl, h.setFile hfd ?_ ?_, _, _, _, rfl⟩
      · exact h.wf.setFile ((h.wf.usable fd).register mask proc clientData)
          (fun _ => AeMask.or_ne_none hmask) fun hge => absurd hfd (by rw [← h.setsize]; omega)
      · refine h.maxfd.insert ?_ (fun d hd => ?_) fun _ => ?_
        · rw [AeSpec.setFile_file_self]
          exact AeMask.or_ne_none hmask
        · rw [AeSpec.setFile_file_of_ne hd]
        · rw [AeSpec.setFile_file_self]
          exact AeMask.or_ne_none hmask
    · simp only [if_neg hok, hfd, true_and]
      exact returns_ok ⟨rfl, h, _, _, _, rfl⟩
  · rw [if_pos (not_lt.mp hfd), if_neg fun hc => hfd hc.1]
    exact returns_ok ⟨rfl, h, _, _, _, rfl⟩

end

/-! ### Taking back -/

section
variable {l : AeEventLoop κ δ} {a : AeSpec κ δ} {fd : Nat} {mask : AeMask}

/-- Where nothing is registered nothing is taken back. -/
theorem AeSpec.FilesWf.deleteFileEvent_of_none (h : a.FilesWf) (hnone : (a.file fd).mask = aeNone) :
    a.deleteFileEvent fd mask = a := by
  refine AeSpec.setFile_eq_self (AeFileEvent.unregister_of_none hnone mask) ?_
  cases hw : a.watched fd with
  | false => rfl
  | true => exact absurd hnone (h.watched fd hw)

/-- Taking back keeps the registrations usable. -/
theorem AeSpec.FilesWf.deleteFileEvent (h : a.FilesWf) : (a.deleteFileEvent fd mask).FilesWf := by
  refine h.setFile ((h.usable fd).unregister mask) (fun hw => ?_) fun hge => ?_
  · exact bne_iff_ne.mp (Bool.and_eq_true_iff.mp hw).2
  · rw [h.outside fd hge]
    exact AeFileEvent.unregister_of_none rfl mask

/-- The search for the highest descriptor below `j`. -/
theorem lowerMaxfd_highest {events : List (AeFileEvent κ δ)} {file : Nat → AeFileEvent κ δ}
    (hfile : ∀ d, file d = events[d]?.getD unsetFileEvent) {j : Nat} (hj : j ≤ events.length) :
    Returns (lowerMaxfd events j) fun m =>
      Highest (fun fd => fd < j ∧ (file fd).mask ≠ aeNone) m := by
  induction j with
  | zero => exact returns_ok (highest_none fun _ h => Nat.not_lt_zero _ h.1)
  | succ j ih =>
    have hload : events[j]? = some (file j) := by
      rw [hfile, List.getElem?_eq_getElem hj, Option.getD_some]
    rw [lowerMaxfd, cellLoad_of_some hload, exec_ok_bind]
    by_cases hmask : (file j).mask ≠ aeNone
    · rw [if_pos hmask]
      exact returns_ok ⟨fun fd hfd => by omega, .inr ⟨j, rfl, Nat.lt_succ_self j, hmask⟩⟩
    · rw [if_neg hmask]
      refine (ih (Nat.le_of_succ_le hj)).imp fun m hm => ?_
      -- the entry `j` is not one of them
      have hiff : ∀ fd, fd < j + 1 ∧ (file fd).mask ≠ aeNone ↔ fd < j ∧ (file fd).mask ≠ aeNone := by
        intro fd
        refine and_congr_left fun hfd => ?_
        have : fd ≠ j := fun heq => hmask (heq ▸ hfd)
        omega
      exact ⟨fun fd hfd => hm.bound fd ((hiff fd).mp hfd),
        hm.reached.imp_right fun ⟨fd, heq, hfd⟩ => ⟨fd, heq, (hiff fd).mpr hfd⟩⟩

/-- The table of the kernel after `aeApiDelEvent`. -/
theorem aeApiDelEvent_eq (h : FilesHeld l a) :
    aeApiDelEvent l.epoll (a.file fd).mask fd mask = (a.deleteFileEvent fd mask).epoll := by
  have hinterest : a.epoll.interest fd = if a.watched fd then some (a.file fd).mask else none := rfl
  rw [aeApiDelEvent, h.epoll, AeSpec.deleteFileEvent, AeSpec.setFile_epoll, hinterest]
  cases hw : a.watched fd with
  | false =>
    -- what is not watched cannot be modified
    simp only [Bool.false_eq_true, if_false, Option.isNone_none, if_true, Bool.false_and]
    have hsame : a.epoll.interest = fun d => if d = fd then none else a.epoll.interest d := by
      funext d
      split
      · next hd => rw [hd, hinterest, hw, if_neg Bool.false_ne_true]
      · rfl
    rw [← hsame]
  | true =>
    simp only [if_true, Option.isNone_some, Bool.false_eq_true, if_false, Bool.true_and, bne_iff_ne,
      AeFileEvent.unregister]

/-- **The new highest descriptor**: it is looked for only if the highest has gone. -/
theorem updateMaxfd_highest {l : AeEventLoop κ δ} {file file' : Nat → AeFileEvent κ δ} {fd : Nat}
    {mask : AeMask} (hfile' : ∀ d, file' d = l.events[d]?.getD unsetFileEvent)
    (hfd : fd < l.events.length) (hsame : ∀ d, d ≠ fd → file' d = file d)
    (hmask : (file' fd).mask = mask) (hold : (file fd).mask ≠ aeNone)
    (h : Highest (fun d => (file d).mask ≠ aeNone) l.maxfd) :
    Returns (updateMaxfd l fd mask) fun l' =>
      ∃ maxfd, l' = { l with maxfd := maxfd } ∧
        Highest (fun d => (file' d).mask ≠ aeNone) maxfd := by
  rw [updateMaxfd]
  by_cases hcase : (fd : Int) = l.maxfd ∧ mask = aeNone
  · rw [if_pos hcase]
    obtain ⟨hmaxfd, rfl⟩ := hcase
    apply (lowerMaxfd_highest hfile' hfd.le).bind
    intro m hm
    refine returns_ok ⟨m, rfl, fun d hd => hm.bound d ⟨?_, hd⟩,
      hm.reached.imp_right fun ⟨d, heq, hd⟩ => ⟨d, heq, hd.2⟩⟩
    have hne : d ≠ fd := fun heq => hd (heq ▸ hmask)
    rw [hsame d hne] at hd
    have := h.bound d hd
    omega
  · rw [if_neg hcase]
    refine returns_ok ⟨l.maxfd, rfl, h.shrink (fun d hd => by rw [hsame d hd]) (fun _ => hold) ?_⟩
    rw [not_and_or] at hcase
    exact hcase.imp_right fun hne => hmask.symm ▸ hne

/-- **Taking back** does what it is for. -/
theorem aeDeleteFileEvent_filesHeld (h : FilesHeld l a) :
    Returns (aeDeleteFileEvent l fd mask) fun l' =>
      FilesHeld l' (a.deleteFileEvent fd mask) ∧
      ∃ events epoll maxfd, l' = { l with events := events, epoll := epoll, maxfd := maxfd } := by
  rw [aeDeleteFileEvent]
  by_cases hnone : (a.file fd).mask = aeNone
  · rw [h.wf.deleteFileEvent_of_none hnone]
    by_cases hfd : fd < l.setsize
    · rw [if_neg (not_le.mpr hfd), h.load hfd, exec_ok_bind, if_pos hnone]
      exact returns_ok ⟨h, _, _, _, rfl⟩
    · rw [if_pos (not_lt.mp hfd)]
      exact returns_ok ⟨h, _, _, _, rfl⟩
  · have hfd : fd < l.setsize := h.setsize ▸ h.wf.lt_of_mask hnone
    have hlt : fd < l.events.length := h.length.symm ▸ hfd
    rw [if_neg (not_le.mpr hfd), h.load hfd, exec_ok_bind, if_neg hnone, cellStore_of_lt hlt,
      exec_ok_bind, aeApiDelEvent_eq h]
    have hwf : (a.deleteFileEvent fd mask).FilesWf := h.wf.deleteFileEvent
    have hfile (d : Nat) : (a.deleteFileEvent fd mask).file d =
        (l.events.set fd { a.file fd with mask := (a.file fd).mask.without mask })[d]?.getD
          unsetFileEvent := h.file_set hfd d
    refine Returns.imp (updateMaxfd_highest hfile ?_ ?_ ?_ hnone h.maxfd) ?_
    · rw [List.length_set]
      exact hlt
    · intro d hd
      exact AeSpec.setFile_file_of_ne hd
    · exact congrArg AeFileEvent.mask AeSpec.setFile_file_self
    · rintro _ ⟨maxfd, rfl, hmaxfd⟩
      exact ⟨h.setFile hfd hwf hmaxfd, _, _, _, rfl⟩

end

/-! ### Descriptors -/

section
variable {l : AeEventLoop κ δ} {a : AeSpec κ δ}

/-- Another table of the kernel. -/
theorem FilesHeld.setTable (h : FilesHeld l a) {opened watched : Nat → Bool}
    (hwatched : ∀ d, watched d = true → a.watched d = true) :
    FilesHeld
      { l with epoll := AeSpec.epoll { a with opened := opened, watched := watched } }
      { a with opened := opened, watched := watched } where
  wf := ⟨h.wf.usable, fun d hd => h.wf.watched d (hwatched d hd), h.wf.outside⟩
  setsize := h.setsize
  length := h.length
  file := h.file
  epoll := rfl
  maxfd := h.maxfd

/-- Opening a descriptor. -/
theorem openDescriptor_filesHeld (h : FilesHeld l a) (fd : Nat) :
    (openDescriptor l fd).1 = (a.opens fd).1 ∧ FilesHeld (openDescriptor l fd).2 (a.opens fd).2 ∧
      ∃ epoll, (openDescriptor l fd).2 = { l with epoll := epoll } := by
  have hopened : l.epoll.opened = a.opened := congrArg Epoll.opened h.epoll
  rw [openDescriptor, AeSpec.opens, hopened]
  split
  · exact ⟨rfl, h, _, rfl⟩
  · have hupdate : (fun d => decide (d = fd) || a.opened d) = Function.update a.opened fd true := by
      funext d
      by_cases hd : d = fd
      · rw [hd, Function.update_self, decide_eq_true rfl, Bool.true_or]
      · rw [Function.update_of_ne hd, decide_eq_false hd, Bool.false_or]
    rw [hupdate, h.epoll]
    exact ⟨rfl, h.setTable fun _ hd => hd, _, rfl⟩

/-- Closing a descriptor. -/
theorem closeDescriptor_filesHeld (h : FilesHeld l a) (fd : Nat) :
    (closeDescriptor l fd).1 = (a.closes fd).1 ∧
      FilesHeld (closeDescriptor l fd).2 (a.closes fd).2 ∧
      ∃ epoll, (closeDescriptor l fd).2 = { l with epoll := epoll } := by
  have hopened : l.epoll.opened = a.opened := congrArg Epoll.opened h.epoll
  rw [closeDescriptor, AeSpec.closes, hopened]
  split
  · have hclosed : (fun d => decide (d ≠ fd) && a.opened d) =
        Function.update a.opened fd false := by
      funext d
      by_cases hd : d = fd
      · rw [hd, Function.update_self, decide_eq_false (fun h => h rfl), Bool.false_and]
      · rw [Function.update_of_ne hd, decide_eq_true hd, Bool.true_and]
    have hinterest : (fun d => if d = fd then none else l.epoll.interest d) = fun d =>
        if Function.update a.watched fd false d = true then some (a.file d).mask else none := by
      funext d
      by_cases hd : d = fd
      · rw [if_pos hd, hd, Function.update_self, if_neg Bool.false_ne_true]
      · rw [if_neg hd, Function.update_of_ne hd, h.epoll, AeSpec.epoll]
    rw [hclosed, hinterest]
    have hwatched (d : Nat) (hd : Function.update a.watched fd false d = true) :
        a.watched d = true := by
      by_cases hdfd : d = fd
      · rw [hdfd, Function.update_self] at hd
        exact nomatch hd
      · rwa [Function.update_of_ne hdfd] at hd
    exact ⟨rfl, h.setTable hwatched, _, rfl⟩
  · exact ⟨rfl, h, _, rfl⟩

end

end Wee
