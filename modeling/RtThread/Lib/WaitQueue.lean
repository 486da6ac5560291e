import Mathlib.Data.List.Nodup
import Mathlib.Data.Fintype.Basic

/-!
# Wait queues with a flag

Threads that do not find what they need wait in a queue. A wake-up sets a flag and resumes the first thread of
the queue. A thread about to wait that finds the flag set goes on at once. A thread that goes on clears the flag
and tries again.

* `Linked`: the queue holds the threads that sleep.
* `Served`: nobody waits for what is there, unless a wake-up is to come or a resumed thread has yet to try again.
* `Served.move`, `Served.sleep`, `Backed.served`: a thread goes on elsewhere, falls asleep, or ends its try.
-/

namespace WaitQueue

variable {T : Type*}

/-- What a thread is to a queue. -/
inductive Phase
  | away
  /-- it did not find what it needs, and is about to wait -/
  | about
  | asleep
  /-- it has waited, and has yet to try again -/
  | retry
  deriving DecidableEq

/-- One queue, and what it is to the threads. -/
structure View (T : Type*) where
  /-- what they wait for is there -/
  ready : Prop
  flag : Bool
  list : List T
  phase : T → Phase
  /-- the thread is about to wake up the queue -/
  waker : T → Bool

/-- The queue holds the threads that sleep. -/
structure Linked (v : View T) : Prop where
  nodup : v.list.Nodup
  asleep : ∀ t, v.phase t = .asleep ↔ t ∈ v.list

/-- Of the threads in `p`, one will wake up the queue or try again; or none sleeps, and none is about to unless
the flag is set. -/
def Backed (v : View T) (p : T → Prop) : Prop :=
  (∃ u, p u ∧ v.waker u = true) ∨ (∃ u, p u ∧ v.phase u = .retry) ∨
    (∀ u, p u → v.phase u ≠ .asleep) ∧ (v.flag = true ∨ ∀ u, p u → v.phase u ≠ .about)

instance [Fintype T] (v : View T) (p : T → Prop) [DecidablePred p] : Decidable (Backed v p) := by
  unfold Backed
  infer_instance

/-- **Nobody waits for what is there**, unless somebody is on the way. -/
def Served (v : View T) : Prop := v.ready → Backed v fun _ => True

variable {v v' : View T} {t : T}

/-- With no wake-up to come and no thread to try again, nobody sleeps for what is there. -/
theorem Served.not_asleep (h : Served v) (hready : v.ready) (hwaker : ∀ u, v.waker u = false)
    (hretry : ∀ u, v.phase u ≠ .retry) : v.phase t ≠ .asleep := by
  obtain ⟨u, -, hu⟩ | ⟨u, -, hu⟩ | ⟨hnone, -⟩ := h hready
  · rw [hwaker u] at hu
    cases hu
  · exact absurd hu (hretry u)
  · exact hnone t trivial

theorem Served.of_not_ready (h : ¬v.ready) : Served v := fun hready => absurd hready h

theorem Served.of_waker (h : v.waker t = true) : Served v := fun _ => .inl ⟨t, trivial, h⟩

theorem Served.of_retry (h : v.phase t = .retry) : Served v := fun _ => .inr (.inl ⟨t, trivial, h⟩)

theorem Served.of_flag (hflag : v.flag = true) (hnone : ∀ u, v.phase u ≠ .asleep) : Served v :=
  fun _ => .inr (.inr ⟨fun u _ => hnone u, .inl hflag⟩)

/-- No thread but `t` does anything, and the flag is not cleared. -/
structure Only (v v' : View T) (t : T) : Prop where
  phase : ∀ u, u ≠ t → v'.phase u = v.phase u
  waker : ∀ u, u ≠ t → v.waker u = true → v'.waker u = true
  flag : v.flag = true → v'.flag = true

/-- Who backs the others does so where `t` does something. -/
theorem Backed.others (h : Backed v (· ≠ t)) (ho : Only v v' t) : Backed v' (· ≠ t) := by
  obtain ⟨u, hu, hw⟩ | ⟨u, hu, hr⟩ | ⟨hnone, hflag⟩ := h
  · exact .inl ⟨u, hu, ho.waker u hu hw⟩
  · exact .inr (.inl ⟨u, hu, (ho.phase u hu).trans hr⟩)
  · refine .inr (.inr ⟨fun u hu => ?_, hflag.imp ho.flag fun hnone u hu => ?_⟩)
    · rw [ho.phase u hu]
      exact hnone u hu
    · rw [ho.phase u hu]
      exact hnone u hu

/-- **A thread ends its try** where the others are backed. -/
theorem Backed.served (h : Backed v (· ≠ t)) (ho : Only v v' t) (haway : v'.phase t = .away) : Served v' := by
  intro _
  obtain ⟨u, -, hw⟩ | ⟨u, -, hr⟩ | ⟨hnone, hflag⟩ := h.others ho
  · exact .inl ⟨u, trivial, hw⟩
  · exact .inr (.inl ⟨u, trivial, hr⟩)
  · have hall : ∀ p : Phase, p ≠ .away → (∀ u, u ≠ t → v'.phase u ≠ p) → ∀ u, True → v'.phase u ≠ p := by
      intro p hp h u _
      by_cases hu : u = t
      · rw [hu, haway]
        exact hp.symm
      · exact h u hu
    exact .inr (.inr ⟨hall _ nofun hnone, hflag.imp_right (hall _ nofun)⟩)

/-- **A thread goes on**: it does not give up a try or a wake-up, and is not about to wait if it was not. -/
theorem Served.move (h : Served v) (hready : v'.ready → v.ready) (ho : Only v v' t)
    (hretry : v.phase t = .retry → v'.phase t = .retry) (hwaker : v.waker t = true → v'.waker t = true)
    (hasleep : v'.phase t = .asleep → v.phase t = .asleep) (habout : v'.phase t = .about → v.phase t = .about) :
    Served v' := by
  intro hr
  obtain ⟨u, -, hw⟩ | ⟨u, -, hu⟩ | ⟨hnone, hflag⟩ := h (hready hr)
  · by_cases hut : u = t
    · exact .inl ⟨u, trivial, hut ▸ hwaker (hut ▸ hw)⟩
    · exact .inl ⟨u, trivial, ho.waker u hut hw⟩
  · by_cases hut : u = t
    · exact .inr (.inl ⟨u, trivial, hut ▸ hretry (hut ▸ hu)⟩)
    · exact .inr (.inl ⟨u, trivial, (ho.phase u hut).trans hu⟩)
  · have hall : ∀ p : Phase, (v'.phase t = p → v.phase t = p) → (∀ u, True → v.phase u ≠ p) →
        ∀ u, True → v'.phase u ≠ p := by
      intro p hp h u _ hu
      by_cases hut : u = t
      · exact h t trivial (hp (hut ▸ hu))
      · exact h u trivial ((ho.phase u hut).symm.trans hu)
    exact .inr (.inr ⟨hall _ hasleep hnone, hflag.imp ho.flag (hall _ habout)⟩)

/-- **A thread falls asleep** that was about to, with the flag clear: somebody is on the way if it need not. -/
theorem Served.sleep (h : Served v) (hready : v'.ready → v.ready) (ho : Only v v' t) (hflag : v.flag = false)
    (habout : v.phase t = .about) (hwaker : v.waker t = false) : Served v' := by
  intro hr
  obtain ⟨u, -, hw⟩ | ⟨u, -, hu⟩ | ⟨-, hf | hnone⟩ := h (hready hr)
  · have hut : u ≠ t := by
      rintro rfl
      rw [hwaker] at hw
      cases hw
    exact .inl ⟨u, trivial, ho.waker u hut hw⟩
  · have hut : u ≠ t := by
      rintro rfl
      rw [habout] at hu
      cases hu
    exact .inr (.inl ⟨u, trivial, (ho.phase u hut).trans hu⟩)
  · rw [hflag] at hf
    cases hf
  · exact absurd habout (hnone t trivial)

/-! ## The queue -/

/-- A thread goes on that neither falls asleep nor wakes up. -/
theorem Linked.move (h : Linked v) (hlist : v'.list = v.list) (hphase : ∀ u, u ≠ t → v'.phase u = v.phase u)
    (hasleep : v'.phase t = .asleep ↔ v.phase t = .asleep) : Linked v' := by
  refine ⟨hlist ▸ h.nodup, fun u => ?_⟩
  rw [hlist, ← h.asleep u]
  by_cases hut : u = t
  · rw [hut]
    exact hasleep
  · rw [hphase u hut]

/-- A thread falls asleep at the end of the queue. -/
theorem Linked.sleep (h : Linked v) (hlist : v'.list = v.list ++ [t]) (hphase : ∀ u, u ≠ t → v'.phase u = v.phase u)
    (hawake : v.phase t ≠ .asleep) (hasleep : v'.phase t = .asleep) : Linked v' := by
  have hnew : t ∉ v.list := fun hmem => hawake ((h.asleep t).2 hmem)
  refine ⟨?_, fun u => ?_⟩
  · rw [hlist]
    exact (List.perm_append_singleton t _).nodup_iff.2 (List.nodup_cons.2 ⟨hnew, h.nodup⟩)
  · rw [hlist, List.mem_append, List.mem_singleton]
    by_cases hut : u = t
    · simp [hut, hasleep]
    · rw [hphase u hut, h.asleep u]
      simp [hut]

/-- The first thread of the queue wakes up. -/
theorem Linked.wake {u : T} {l : List T} (h : Linked v) (hold : v.list = u :: l) (hlist : v'.list = l)
    (hphase : ∀ w, w ≠ u → v'.phase w = v.phase w) (hawake : v'.phase u ≠ .asleep) : Linked v' := by
  have hnd := h.nodup
  rw [hold] at hnd
  obtain ⟨hu, hnd⟩ := List.nodup_cons.1 hnd
  refine ⟨hlist ▸ hnd, fun w => ?_⟩
  rw [hlist]
  by_cases hwu : w = u
  · subst hwu
    exact ⟨fun hw => absurd hw hawake, fun hw => absurd hw hu⟩
  · rw [hphase w hwu, h.asleep w, hold, List.mem_cons]
    simp [hwu]

end WaitQueue
