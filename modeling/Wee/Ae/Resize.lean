import Wee.Ae.MainLoop

/-! # A loop for another number of descriptors

`aeResizeSetSize` refuses to drop a descriptor that is registered. Otherwise it keeps what is
registered, also where the array has moved and its new entries hold anything. -/

namespace Wee

variable {κ δ σ : Type}

/-- What there is for another number of descriptors; `junk` is what new entries hold. -/
def AeSpec.resized (junk : Nat → AeFileEvent κ δ) (a : AeSpec κ δ) (setsize : Nat) : AeSpec κ δ :=
  { a with
    setsize := setsize
    file := fun fd =>
      if fd < setsize then
        if fd < a.setsize then a.file fd else { junk fd with mask := aeNone }
      else unsetFileEvent }

section
variable {l : AeEventLoop κ δ} {a : AeSpec κ δ} {junk : Nat → AeFileEvent κ δ} {setsize : Nat}

/-- What is registered stays registered, and nothing else is. -/
theorem AeSpec.FilesWf.resized_mask (h : a.FilesWf)
    (hkept : ∀ fd, (a.file fd).mask ≠ aeNone → fd < setsize) (fd : Nat) :
    ((a.resized junk setsize).file fd).mask = (a.file fd).mask := by
  rw [AeSpec.resized]
  dsimp only
  by_cases hfd : fd < setsize
  · rw [if_pos hfd]
    split
    · rfl
    · next hge =>
      rw [h.outside fd (not_lt.mp hge)]
      rfl
  · rw [if_neg hfd]
    by_contra hne
    exact hfd (hkept fd fun hmask => hne hmask.symm)

/-- A registration stays what it is. -/
theorem AeSpec.FilesWf.resized_file (h : a.FilesWf)
    (hkept : ∀ fd, (a.file fd).mask ≠ aeNone → fd < setsize) {fd : Nat}
    (hfd : (a.file fd).mask ≠ aeNone) : (a.resized junk setsize).file fd = a.file fd := by
  rw [AeSpec.resized]
  dsimp only
  rw [if_pos (hkept fd hfd), if_pos (h.lt_of_mask hfd)]

/-- The registrations are usable. -/
theorem AeSpec.FilesWf.resized (h : a.FilesWf)
    (hkept : ∀ fd, (a.file fd).mask ≠ aeNone → fd < setsize) :
    (a.resized junk setsize).FilesWf where
  usable fd := by
    have hmask : ((a.resized junk setsize).file fd).mask = (a.file fd).mask :=
      h.resized_mask hkept fd
    by_cases hfd : (a.file fd).mask = aeNone
    · rw [hfd] at hmask
      constructor
      · intro hreadable
        rw [hmask] at hreadable
        exact absurd hreadable Bool.false_ne_true
      · intro hwritable
        rw [hmask] at hwritable
        exact absurd hwritable Bool.false_ne_true
      · exact fun hne => absurd hmask hne
    · rw [h.resized_file hkept hfd]
      exact h.usable fd
  watched fd hwatched := by
    rw [h.resized_mask hkept]
    exact h.watched fd hwatched
  outside fd hfd := if_neg (not_lt.mpr hfd)

/-- The entry of a descriptor in the array that has been resized. -/
theorem FilesHeld.resizeEvents (h : FilesHeld l a) (fd : Nat) :
    (a.resized junk setsize).file fd =
      (resizeEvents junk l.events (l.maxfd + 1).toNat setsize)[fd]?.getD unsetFileEvent := by
  rw [Wee.resizeEvents, List.getElem?_map, AeSpec.resized]
  dsimp only
  by_cases hfd : fd < setsize
  · rw [if_pos hfd, List.getElem?_range hfd, Option.map_some, Option.getD_some]
    by_cases hold : fd < a.setsize
    · rw [if_pos hold, h.getElem? (h.setsize ▸ hold), Option.getD_some]
      by_cases hfirst : (l.maxfd + 1).toNat ≤ fd
      · -- nothing is registered for it
        have hnone : (a.file fd).mask = aeNone := by
          by_contra hne
          have hle := h.maxfd.bound fd hne
          omega
        rw [if_pos hfirst, ← hnone]
      · rw [if_neg hfirst]
    · have hlength : l.events.length ≤ fd := by
        rw [h.length, ← h.setsize]
        exact not_lt.mp hold
      have hfirst : (l.maxfd + 1).toNat ≤ fd := by
        rcases h.maxfd.reached with hm | ⟨d, hm, hd⟩
        · omega
        · have hlt := h.wf.lt_of_mask hd
          omega
      rw [if_neg hold, List.getElem?_eq_none hlength, Option.getD_none, if_pos hfirst]
  · have hrange : (List.range setsize)[fd]? = none := List.getElem?_eq_none (by simpa using hfd)
    rw [if_neg hfd, hrange]
    rfl

/-- The array, `maxfd` and the table of the kernel after the change. -/
theorem FilesHeld.resized (h : FilesHeld l a)
    (hkept : ∀ fd, (a.file fd).mask ≠ aeNone → fd < setsize) :
    FilesHeld { l with
        events := Wee.resizeEvents junk l.events (l.maxfd + 1).toNat setsize, setsize := setsize }
      (a.resized junk setsize) where
  wf := h.wf.resized hkept
  setsize := rfl
  length := (List.length_map ..).trans List.length_range
  file := h.resizeEvents
  epoll := by
    rw [h.epoll, AeSpec.epoll, AeSpec.epoll]
    congr 1
    funext fd
    rw [h.wf.resized_mask hkept]
    rfl
  maxfd := by
    simp only [h.wf.resized_mask hkept]
    exact h.maxfd

end

end Wee
