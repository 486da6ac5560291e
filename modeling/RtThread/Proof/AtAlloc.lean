import RtThread.Spec.AtAlloc

/-!
# Allocation of an AT socket

A slot is claimed before its semaphore and its mutex are made, and is not given back when they are not; the null
pointer that is returned then is the index 0.

* `atomic_iff`: **when `at_socket` is atomic**, for every table and whatever the creating calls return.
-/

namespace RtThread.AtAlloc

open State

variable {s : State} {a : Answers} {i j : ℕ}

/-! ## The table -/

theorem firstFree_iff : s.sockets.findIdx? (·.magic = 0) = some i ↔ s.FirstFree i := by
  rw [List.findIdx?_eq_some_iff_getElem]
  constructor
  · rintro ⟨hlt, hmagic, hbefore⟩
    refine ⟨⟨_, List.getElem?_eq_getElem hlt, by simpa using hmagic⟩, fun j hj => ?_⟩
    have hj' : j < s.sockets.length := Nat.lt_trans hj hlt
    exact ⟨_, List.getElem?_eq_getElem hj', by simpa using hbefore j hj⟩
  · rintro ⟨⟨sock, hsock, hmagic⟩, hbefore⟩
    obtain ⟨hlt, rfl⟩ := List.getElem?_eq_some_iff.1 hsock
    refine ⟨hlt, by simpa using hmagic, fun j hj => ?_⟩
    obtain ⟨sock', hsock', hmagic'⟩ := hbefore j hj
    obtain ⟨hj', rfl⟩ := List.getElem?_eq_some_iff.1 hsock'
    simpa using hmagic'

theorem noneFree_iff : s.sockets.findIdx? (·.magic = 0) = none ↔ ∀ i, ¬s.Free i := by
  rw [List.findIdx?_eq_none_iff]
  constructor
  · rintro h i ⟨sock, hsock, hmagic⟩
    simpa [hmagic] using h sock (List.mem_of_getElem? hsock)
  · intro h sock hsock
    obtain ⟨i, hi⟩ := List.mem_iff_getElem?.1 hsock
    simpa using fun hmagic => h i ⟨sock, hi, hmagic⟩

/-- A slot is not used and free. -/
theorem State.Free.unused (h : s.Free i) : ¬s.Used i := by
  obtain ⟨sock, hsock, hmagic⟩ := h
  rintro ⟨sock', hsock', hmagic'⟩
  obtain rfl : sock = sock' := Option.some.inj (hsock.symm.trans hsock')
  exact hmagic' hmagic

/-- One slot is taken, and the others are as they were. -/
def Takes (s s' : State) (i : ℕ) : Prop :=
  s'.Used i ∧ ∀ j ≠ i, (s'.Used j ↔ s.Used j) ∧ (s'.Free j ↔ s.Free j)

theorem takes_set {lock : Bool} {sock : Socket} (hi : i < s.sockets.length) (hsock : sock.magic ≠ 0) :
    Takes s ⟨lock, s.sockets.set i sock⟩ i := by
  refine ⟨⟨sock, List.getElem?_set_self hi, hsock⟩, fun j hj => ?_⟩
  have hsame : (s.sockets.set i sock)[j]? = s.sockets[j]? := List.getElem?_set_ne (Ne.symm hj)
  exact ⟨by unfold Used; rw [hsame], by unfold Free; rw [hsame]⟩

/-! ## `alloc_socket` -/

/-- **What `alloc_socket` does**: there is no lock, or no slot is free, and the slots stay as they are; or the first
free slot is taken, whatever is made for it. -/
theorem allocSocket_cases (s : State) (a : Answers) :
    ((¬(s.atSlock = true ∨ a.atSlock = true) ∨ ∀ i, ¬s.Free i) ∧ (s.allocSocket a).1 = none ∧
        (s.allocSocket a).2.sockets = s.sockets) ∨
      (s.atSlock = true ∨ a.atSlock = true) ∧ ∃ i, s.FirstFree i ∧ Takes s (s.allocSocket a).2 i ∧
        (s.allocSocket a).1 = if a.recvNotice.isSome = true ∧ a.recvLock.isSome = true then some i else none := by
  by_cases hlock : s.atSlock = false ∧ a.atSlock = false
  · left
    refine ⟨.inl (by simp [hlock.1, hlock.2]), ?_⟩
    rw [allocSocket, if_pos hlock]
    exact ⟨rfl, rfl⟩
  · have hlock' : s.atSlock = true ∨ a.atSlock = true := by
      cases h : s.atSlock <;> cases h' : a.atSlock <;> simp_all
    rw [allocSocket, if_neg hlock]
    cases hfind : s.sockets.findIdx? (·.magic = 0) with
    | none => exact .inl ⟨.inr (noneFree_iff.1 hfind), rfl, rfl⟩
    | some i =>
      right
      have hfirst : s.FirstFree i := firstFree_iff.1 hfind
      obtain ⟨sock, hsock, -⟩ := hfirst.1
      obtain ⟨hi, -⟩ := List.getElem?_eq_some_iff.1 hsock
      refine ⟨hlock', i, hfirst, ?_⟩
      have hmagic : AT_SOCKET_MAGIC ≠ 0 := by decide
      cases a.recvNotice with
      | none => exact ⟨takes_set hi hmagic, by simp⟩
      | some notice =>
        cases a.recvLock with
        | none => exact ⟨takes_set hi hmagic, by simp⟩
        | some lock => exact ⟨takes_set hi hmagic, by simp⟩

theorem firstFree_unique (hi : s.FirstFree i) (hj : s.FirstFree j) : i = j := by
  obtain hlt | heq | hlt := Nat.lt_trichotomy i j
  · exact absurd (hj.2 i hlt) hi.1.unused
  · exact heq
  · exact absurd (hi.2 j hlt) hj.1.unused

theorem used_congr {s' : State} (h : s'.sockets = s.sockets) (j : ℕ) :
    (s'.Used j ↔ s.Used j) ∧ (s'.Free j ↔ s.Free j) := by
  unfold Used Free
  rw [h]
  exact ⟨Iff.rfl, Iff.rfl⟩

/-- `free_socket` would give the slot of a failed call back. -/
theorem freeSocket_undoes {s' : State} (hfree : s.Free i) (h : Takes s s' i) (j : ℕ) :
    ((s'.freeSocket i).Used j ↔ s.Used j) ∧ ((s'.freeSocket i).Free j ↔ s.Free j) := by
  obtain ⟨sock, hsock, -⟩ := h.1
  obtain ⟨hi, -⟩ := List.getElem?_eq_some_iff.1 hsock
  by_cases hj : j = i
  · subst hj
    have hzero : (s'.freeSocket j).Free j := ⟨.zero, List.getElem?_set_self hi, rfl⟩
    exact ⟨iff_of_false hzero.unused hfree.unused, iff_of_true hzero hfree⟩
  · have hsame : (s'.sockets.set i .zero)[j]? = s'.sockets[j]? := List.getElem?_set_ne (Ne.symm hj)
    have hused : (s'.freeSocket i).Used j ↔ s'.Used j := by unfold Used freeSocket; rw [hsame]
    have hfree' : (s'.freeSocket i).Free j ↔ s'.Free j := by unfold Free freeSocket; rw [hsame]
    exact ⟨hused.trans (h.2 j hj).1, hfree'.trans (h.2 j hj).2⟩

/-! ## `at_socket` -/

/-- The type is set, and nothing else. -/
theorem used_modify (lock : Bool) (i : ℕ) (type : SocketType) (s : State) (j : ℕ) :
    (Used ⟨lock, s.sockets.modify i fun sock => { sock with type := type }⟩ j ↔ s.Used j) ∧
      (Free ⟨lock, s.sockets.modify i fun sock => { sock with type := type }⟩ j ↔ s.Free j) := by
  unfold Used Free
  simp only [List.getElem?_modify]
  split
  · cases s.sockets[j]? <;> simp
  · cases s.sockets[j]? <;> simp

/-- A call that returns 0 without taking a slot is not atomic. -/
theorem not_atomic_zero {s' : State} (h : ∀ j, (s'.Used j ↔ s.Used j) ∧ (s'.Free j ↔ s.Free j)) :
    ¬s.Atomic (0, s') := by
  rintro (⟨i, -, hfree, hused, -⟩ | ⟨hneg, -⟩)
  · exact hfree.unused ((h i).1.1 hused)
  · exact absurd hneg (lt_irrefl 0)

/-- **When `at_socket` is atomic**: for a type that is not supported, and where it allocates. -/
theorem atomic_iff (s : State) (type : ℤ) (a : Answers) :
    s.Atomic (s.atSocket type a) ↔ socketType type = none ∨ s.Allocates a := by
  unfold atSocket
  cases socketType type with
  | none => exact iff_of_true (.inr ⟨show (-1 : ℤ) < 0 by decide, fun j => ⟨Iff.rfl, Iff.rfl⟩⟩) (.inl rfl)
  | some type =>
    rw [or_iff_right (by simp)]
    obtain ⟨hwhy, hnone, hsame⟩ | ⟨hlock, i, hfirst, htakes, hresult⟩ := allocSocket_cases s a
    · -- nothing is allocated
      have hresult : s.allocSocket a = (none, (s.allocSocket a).2) := Prod.ext hnone rfl
      rw [hresult]
      refine iff_of_false (not_atomic_zero (used_congr hsame)) ?_
      rintro ⟨hlock, i, hfirst, -⟩
      obtain hno | hno := hwhy
      · exact hno hlock
      · exact hno i hfirst.1
    · by_cases hmade : a.recvNotice.isSome = true ∧ a.recvLock.isSome = true
      · -- the slot is returned
        rw [if_pos hmade] at hresult
        have hresult : s.allocSocket a = (some i, (s.allocSocket a).2) := Prod.ext hresult rfl
        rw [hresult]
        have hmodify := used_modify (s.allocSocket a).2.atSlock i type (s.allocSocket a).2
        refine iff_of_true (.inl ⟨i, rfl, hfirst.1, (hmodify i).1.2 htakes.1, fun j hj => ?_⟩)
          ⟨hlock, i, hfirst, .inr hmade⟩
        exact ⟨(hmodify j).1.trans (htakes.2 j hj).1, (hmodify j).2.trans (htakes.2 j hj).2⟩
      · -- the slot is lost, and 0 is returned
        rw [if_neg hmade] at hresult
        have hresult : s.allocSocket a = (none, (s.allocSocket a).2) := Prod.ext hresult rfl
        rw [hresult]
        constructor
        · rintro (⟨j, hj, hfree, -⟩ | ⟨hneg, -⟩)
          · obtain rfl : 0 = j := Int.ofNat.inj hj
            have hzero : s.FirstFree 0 := ⟨hfree, nofun⟩
            exact ⟨hlock, 0, hzero, .inl rfl⟩
          · exact absurd hneg (lt_irrefl 0)
        · rintro ⟨-, j, hfirst', hj⟩
          obtain rfl := firstFree_unique hfirst hfirst'
          obtain rfl := hj.resolve_right hmade
          exact .inl ⟨0, rfl, hfirst.1, htakes⟩

/-- A table whose second slot is free. -/
def second : State := ⟨true, [⟨AT_SOCKET_MAGIC, 0, .tcp, .connect, some 0, some 1, [], 0, 0, 0⟩, .zero]⟩

/-- The mutex cannot be made: 0 is returned, which is in use, and the second slot is lost. -/
theorem atSocket_loses : ¬∀ (s : State) (type : ℤ) (a : Answers), s.Atomic (s.atSocket type a) := by
  intro h
  obtain ⟨i, hi, ⟨sock, hsock, hmagic⟩, -⟩ | ⟨hneg, -⟩ := h second SOCK_STREAM ⟨true, some 2, none⟩
  · obtain rfl : 0 = i := Int.ofNat.inj hi
    cases hsock
    exact absurd hmagic (by decide)
  · exact absurd hneg (by decide)

end RtThread.AtAlloc
