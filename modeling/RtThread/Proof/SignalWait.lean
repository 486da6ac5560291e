import RtThread.Spec.SignalWait
import Mathlib.Data.List.Pairwise

/-!
# `rt_signal_wait` takes one signal

* `waitLoop_skip`, `waitLoop_past_end`: the loop goes from record to record, and past the last one to the address -8.
* `takesFirst_of_split`: a record is taken out of the queue if it is not the first of several.
* `not_takesFirst_head`: the first of several leaves a queue that begins with a link where a record should be.
-/

namespace RtThread.SignalWait

open Ipc (sigMask)

variable {s s' : State} {set timeout x y : BitVec 32} {l r rs : List (BitVec 32)}

/-! ## Pointers -/

theorem record_some {p : BitVec 32} (h : record p = some x) : p = x := by
  unfold record at h
  split at h
  · cases h
  · exact Option.some.inj h

theorem record_none {p : BitVec 32} (h : record p = none) : p = 0 := by
  unfold record at h
  split at h
  · assumption
  · cases h

theorem State.after_some (h : s.after x = some y) : s.listNext x ≠ 0 ∧ slistEntry (s.listNext x) = y := by
  unfold State.after at h
  split at h
  · cases h
  · rename_i hne
    exact ⟨hne, Option.some.inj h⟩

theorem State.after_none (h : s.after x = none) : s.listNext x = 0 := by
  unfold State.after at h
  split at h
  · assumption
  · cases h

theorem Apart.ne (h : Apart x y) : x ≠ y := by
  have := h 0 (by decide) 0 (by decide)
  simpa using this

instance : Std.Symm Apart := ⟨fun _ _ h i hi j hj heq => h j hj i hi heq.symm⟩

namespace Queued

variable (h : Queued s rs)
include h

theorem nodup : rs.Nodup := h.apart.imp fun ha => ha.ne

theorem apart_of (hx : x ∈ rs) (hy : y ∈ rs) (hne : x ≠ y) : Apart x y :=
  h.apart.forall hx hy hne

end Queued

/-! ## The loop -/

/-- **The loop skips records** whose signals are not in the set. -/
theorem waitLoop_skip (hc : Chain s.after (some y) (l ++ x :: r)) (hz : ∀ z ∈ l, z ≠ 0)
    (hl : ∀ z ∈ l, ¬s.Matches set z) (n : ℕ) (siPrev : BitVec 32) :
    waitLoop set (l.length + n) siPrev y s = waitLoop set n (l.getLast?.getD siPrev) x s := by
  induction l generalizing y siPrev with
  | nil =>
    obtain rfl : y = x := Option.some.inj hc.1
    rw [List.length_nil, Nat.zero_add]
    rfl
  | cons z l ih =>
    obtain ⟨hy, hc⟩ := hc
    obtain rfl : y = z := Option.some.inj hy
    obtain ⟨w, hw⟩ : ∃ w, s.after y = some w := by
      rw [hc.head_eq]
      cases l with
      | nil => exact ⟨x, rfl⟩
      | cons w l => exact ⟨w, rfl⟩
    have hnomatch := hl y List.mem_cons_self
    unfold State.Matches at hnomatch
    rw [List.length_cons, Nat.add_right_comm, waitLoop, if_neg (hz y List.mem_cons_self)]
    simp only
    rw [if_neg hnomatch, (State.after_some hw).2, List.getLast?_cons, Option.getD_some]
    exact ih (hw ▸ hc) (fun v hv => hz v (List.mem_cons_of_mem _ hv)) (fun v hv => hl v (List.mem_cons_of_mem _ hv)) y

/-- **The loop does not see the end of the list**: it goes on at the address that the link `NULL` is taken for. -/
theorem waitLoop_past_end (hc : Chain s.after (some y) (l ++ [x])) (hz : ∀ z ∈ l ++ [x], z ≠ 0)
    (hl : ∀ z ∈ l ++ [x], ¬s.Matches set z) (n : ℕ) (siPrev : BitVec 32) :
    waitLoop set (l.length + (n + 1)) siPrev y s = waitLoop set n x (-8) s := by
  have hlast : s.listNext x = 0 := State.after_none hc.next_eq
  have hx : x ∈ l ++ [x] := List.mem_append_right _ List.mem_cons_self
  have hnomatch := hl x hx
  unfold State.Matches at hnomatch
  rw [waitLoop_skip hc (fun z h => hz z (List.mem_append_left _ h)) (fun z h => hl z (List.mem_append_left _ h)),
    waitLoop, if_neg (hz x hx)]
  simp only
  rw [if_neg hnomatch, hlast]
  rfl

/-! ## Taking a record out -/

/-- What the loop leaves when it takes the record `x` behind `siPrev`. -/
def taken (s : State) (siPrev x : BitVec 32) : State :=
  let s' := if siPrev ≠ 0 then s.setListNext siPrev (s.listNext x) else { s with siList := s.listNext x }
  { s' with sigPending := s.sigPending &&& ~~~(sigMask (s.siginfo x).siSigno.toNat) }.mpFree x

theorem waitLoop_take (hx : x ≠ 0) (hmatch : s.Matches set x) (n : ℕ) (siPrev : BitVec 32) :
    waitLoop set (n + 1) siPrev x s = some (some (s.siginfo x), taken s siPrev x) := by
  unfold State.Matches at hmatch
  rw [waitLoop, if_neg hx]
  simp only
  rw [if_pos hmatch]
  unfold taken
  split <;> rfl

theorem taken_sigPending (siPrev : BitVec 32) :
    (taken s siPrev x).sigPending = s.sigPending &&& ~~~(sigMask (s.siginfo x).siSigno.toNat) := rfl

/-- Memory away from the freed block and from the link of the record in front of it. -/
theorem taken_mem {siPrev a : BitVec 32} (hfree : a ≠ x - 4) (hprev : siPrev ≠ 0 → a ≠ siPrev + 8) :
    (taken s siPrev x).mem a = s.mem a := by
  unfold taken State.mpFree
  simp only
  rw [Function.update_of_ne hfree]
  split
  · rename_i h
    exact Function.update_of_ne (hprev h) _ _
  · rfl

/-- A record that is neither freed nor in front keeps its link. -/
theorem taken_after {siPrev z : BitVec 32} (hz : Apart z x) (hprev : siPrev ≠ 0 → z ≠ siPrev) :
    (taken s siPrev x).after z = s.after z := by
  have hnext : (taken s siPrev x).listNext z = s.listNext z := by
    refine taken_mem ?_ fun hne heq => hprev hne (add_right_cancel heq)
    exact fun heq => hz 8 (by decide) (-4) (by decide) (heq.trans (sub_eq_add_neg x 4))
  unfold State.after
  rw [hnext]

/-- The record in front gets the link of the one that goes. -/
theorem taken_after_prev {siPrev : BitVec 32} (hne : siPrev ≠ 0) (ha : Apart siPrev x) :
    (taken s siPrev x).after siPrev = s.after x := by
  have hnext : (taken s siPrev x).listNext siPrev = s.listNext x := by
    unfold taken State.mpFree State.listNext
    simp only [if_pos hne]
    have hfree : siPrev + 8 ≠ x - 4 := fun heq =>
      ha 8 (by decide) (-4) (by decide) (heq.trans (sub_eq_add_neg x 4))
    rw [Function.update_of_ne hfree]
    exact Function.update_self _ _ _
  unfold State.after
  rw [hnext]

/-- Every other record keeps its signal. -/
theorem taken_siginfo {siPrev z : BitVec 32} (hz : Apart z x) (hprev : siPrev ≠ 0 → z = siPrev ∨ Apart z siPrev) :
    (taken s siPrev x).siginfo z = s.siginfo z := by
  have hfirst : (taken s siPrev x).mem z = s.mem z := by
    refine taken_mem (fun heq => ?_) fun hne heq => ?_
    · refine hz 0 (by decide) (-4) (by decide) ?_
      rw [← sub_eq_add_neg, ← heq]
      exact add_zero z
    · rcases hprev hne with rfl | ha
      · exact absurd heq (by simp)
      · exact ha 0 (by decide) 8 (by decide) (by rw [← heq]; exact add_zero z)
  have hvalue : (taken s siPrev x).mem (z + 4) = s.mem (z + 4) := by
    refine taken_mem (fun heq => ?_) fun hne heq => ?_
    · exact hz 4 (by decide) (-4) (by decide) (heq.trans (sub_eq_add_neg x 4))
    · rcases hprev hne with rfl | ha
      · exact absurd (add_left_cancel heq) (by decide)
      · exact ha 4 (by decide) 8 (by decide) heq
  unfold State.siginfo
  rw [hfirst, hvalue]

/-- **The other records stay queued**, unless the first of several goes. -/
theorem taken_queued (h : Queued s (l ++ x :: r)) (hhead : l = [] → r = []) :
    Queued (taken s (l.getLast?.getD 0) x) (l ++ r) := by
  have hsub : (l ++ r).Sublist (l ++ x :: r) := (List.Sublist.refl l).append (List.sublist_cons_self x r)
  refine ⟨?_, fun z hz => h.nonNull z (hsub.subset hz), h.apart.sublist hsub⟩
  rcases List.eq_nil_or_concat l with rfl | ⟨l, y, rfl⟩
  · obtain rfl := hhead rfl
    show record (s.listNext x) = none
    rw [State.after_none h.linked.next_eq]
    rfl
  · rw [List.concat_eq_append, List.append_assoc, List.singleton_append] at *
    have hne : y ≠ 0 := h.nonNull y (List.mem_append_right _ List.mem_cons_self)
    have hlast : (l ++ [y]).getLast?.getD 0 = y := by simp
    have hlist : (taken s y x).siList = s.siList := by
      unfold taken State.mpFree
      simp only [if_pos hne]
      rfl
    have hmem : ∀ z ∈ l ++ r, z ∈ l ++ y :: x :: r ∧ z ≠ x ∧ z ≠ y := by
      intro z hz
      have hnd := h.nodup
      have hperm : (l ++ y :: x :: r).Perm (y :: x :: (l ++ r)) := by
        refine List.perm_middle.trans (.cons y List.perm_middle)
      obtain ⟨hy, hnd⟩ := List.nodup_cons.1 (hperm.nodup_iff.1 hnd)
      refine ⟨hperm.mem_iff.2 (by simp [List.mem_append.1 hz]), ?_, ?_⟩
      · rintro rfl
        exact (List.nodup_cons.1 hnd).1 hz
      · rintro rfl
        exact hy (List.mem_cons_of_mem _ hz)
    have hx : x ∈ l ++ y :: x :: r := List.mem_append_right _ (List.mem_cons_of_mem _ List.mem_cons_self)
    have hy : y ∈ l ++ y :: x :: r := List.mem_append_right _ List.mem_cons_self
    have hyx : y ≠ x := by
      rintro rfl
      have hnd := (List.nodup_append.1 h.nodup).2.1
      exact (List.nodup_cons.1 hnd).1 List.mem_cons_self
    rw [hlast, hlist]
    refine h.linked.removeAfter (taken_after_prev hne (h.apart_of hy hx hyx)) fun z hz => ?_
    obtain ⟨hin, hzx, hzy⟩ := hmem z hz
    exact taken_after (h.apart_of hin hx hzx) fun _ => hzy

/-- The records that stay keep their signals. -/
theorem taken_content (h : Queued s (l ++ x :: r)) :
    ∀ z ∈ l ++ r, (taken s (l.getLast?.getD 0) x).siginfo z = s.siginfo z := by
  intro z hz
  have hx : x ∈ l ++ x :: r := List.mem_append_right _ List.mem_cons_self
  have hperm : (l ++ x :: r).Perm (x :: (l ++ r)) := List.perm_middle
  have hin : z ∈ l ++ x :: r := hperm.mem_iff.2 (List.mem_cons_of_mem _ hz)
  have hne : z ≠ x := by
    rintro rfl
    exact (List.nodup_cons.1 (hperm.nodup_iff.1 h.nodup)).1 hz
  refine taken_siginfo (h.apart_of hin hx hne) fun hprev => ?_
  cases hlast : l.getLast? with
  | none =>
    rw [hlast] at hprev
    exact absurd rfl hprev
  | some y =>
    have hy : y ∈ l ++ x :: r := List.mem_append_left _ (List.mem_of_getLast? hlast)
    by_cases hzy : z = y
    · exact .inl hzy
    · exact .inr (h.apart_of hin hy hzy)

/-! ## The call -/

theorem rtSignalWait_pending (hp : s.sigPending &&& set ≠ 0) (fuel : ℕ) :
    rtSignalWait fuel s (some set) true timeout = done fuel set s := by
  have hset : set ≠ 0 := by
    rintro rfl
    exact hp (BitVec.and_zero)
  unfold rtSignalWait
  simp only [hset, false_or, Bool.true_eq_false, if_false, if_pos hp]

theorem takesFirst_of_split (h : Queued s (l ++ x :: r)) (hp : s.sigPending &&& set ≠ 0)
    (hl : ∀ y ∈ l, ¬s.Matches set y) (hx : s.Matches set x) (hhead : l = [] → r = []) :
    TakesFirst s set timeout (l ++ x :: r) := by
  have hrecord : record s.siList = some s.siList := by
    have hfirst := h.linked.head_eq
    cases hr : record s.siList with
    | none =>
      rw [hr] at hfirst
      cases l <;> cases hfirst
    | some p => rw [record_some hr]
  have hne : x ≠ 0 := h.nonNull x (List.mem_append_right _ List.mem_cons_self)
  refine ⟨l, x, r, rfl, hl, hx, l.length + 1, taken s (l.getLast?.getD 0) x, ?_, taken_queued h hhead,
    taken_content h, taken_sigPending _⟩
  have hlinked := h.linked
  rw [hrecord] at hlinked
  rw [rtSignalWait_pending hp, done,
    waitLoop_skip hlinked (fun z hz => h.nonNull z (List.mem_append_left _ hz)) hl, waitLoop_take hne hx]
  rfl

/-- **The first of several** leaves a queue that begins with a link where a record should be. -/
theorem not_takesFirst_head (h : Queued s (x :: y :: rs)) (hp : s.sigPending &&& set ≠ 0) (hx : s.Matches set x) :
    ¬TakesFirst s set timeout (x :: y :: rs) := by
  rintro ⟨l, z, r, heq, hl, -, fuel, s', hrun, hq, -⟩
  cases l with
  | cons w l =>
    obtain ⟨rfl, -⟩ := List.cons.inj heq
    exact hl x List.mem_cons_self hx
  | nil =>
    cases heq
    have hlist : s.siList = x := record_some h.linked.1
    have hnext := State.after_some (h.linked.2.1)
    rw [rtSignalWait_pending hp, done, hlist] at hrun
    cases fuel with
    | zero => cases hrun
    | succ n =>
      rw [waitLoop_take (h.nonNull x List.mem_cons_self) hx, Option.map_some, Option.some.injEq] at hrun
      cases hrun
      -- the link of the first record is 8 bytes behind the second one
      have hsecond : s.listNext x = y := record_some hq.linked.1
      rw [hsecond] at hnext
      exact absurd hnext.2 (by unfold slistEntry; simp)

/-- **`rt_signal_wait` takes the first signal of the set** exactly where one is queued, and is not the first of
several. -/
theorem signalWait_takesFirst (h : Queued s rs) (hp : s.sigPending &&& set ≠ 0) :
    TakesFirst s set timeout rs ↔
      ∃ l x r, rs = l ++ x :: r ∧ (∀ y ∈ l, ¬s.Matches set y) ∧ s.Matches set x ∧ (l = [] → r = []) := by
  constructor
  · intro ht
    obtain ⟨l, x, r, rfl, hl, hx, -⟩ := id ht
    refine ⟨l, x, r, rfl, hl, hx, ?_⟩
    rintro rfl
    cases r with
    | nil => rfl
    | cons y r => exact absurd ht (not_takesFirst_head h hp hx)
  · rintro ⟨l, x, r, rfl, hl, hx, hhead⟩
    exact takesFirst_of_split h hp hl hx hhead

/-- The signals 5 and 6 are queued, in this order; 5, 6 and 7 are pending. -/
def twoQueued : State where
  mem a := if a = 0x20001000 then 0x00010005 else if a = 0x20001008 then 0x20001018
    else if a = 0x20001010 then 0x00010006 else 0
  siList := 0x20001000
  sigPending := 0xe0
  error := .eok
  signalWait := false
  blockList := 0
  blockFreeCount := 30

theorem twoQueued_queued : Queued twoQueued [0x20001000, 0x20001010] where
  linked := ⟨by decide, by decide, Chain.nil.2 (by decide)⟩
  nonNull := by simp
  apart := List.pairwise_pair.2 (by decide)

/-- The last one is taken. -/
theorem signalWait_takesFirst_last : TakesFirst twoQueued (sigMask 6) 0 [0x20001000, 0x20001010] := by
  have hiff : TakesFirst twoQueued (sigMask 6) 0 _ ↔ _ :=
    signalWait_takesFirst twoQueued_queued (by decide)
  refine hiff.2 ⟨[0x20001000], 0x20001010, [], rfl, fun y hy => ?_, by decide, nofun⟩
  rw [List.mem_singleton.1 hy]
  decide

/-- Past the last record the loop may stay at one address. -/
theorem waitLoop_stuck (hx : ¬s.Matches set (-8)) (hnext : s.listNext (-8) = 0) (n : ℕ) (siPrev : BitVec 32) :
    waitLoop set n siPrev (-8) s = none := by
  induction n generalizing siPrev with
  | zero => rfl
  | succ n ih =>
    unfold State.Matches at hx
    rw [waitLoop, if_neg (by decide)]
    simp only
    rw [if_neg hx, hnext]
    exact ih (-8)

/-- The first one is taken, and what is left is no queue; for the signal 7, whose node did not fit the pool, the call
does not come back. -/
theorem signalWait_loses : Queued twoQueued [0x20001000, 0x20001010] ∧
    ¬TakesFirst twoQueued (sigMask 5) 0 [0x20001000, 0x20001010] ∧
    (twoQueued.sigPending &&& sigMask 7 ≠ 0) ∧
    ∀ fuel, rtSignalWait fuel twoQueued (some (sigMask 7)) true 0 = none := by
  have hfive : ¬TakesFirst twoQueued (sigMask 5) 0 _ :=
    not_takesFirst_head twoQueued_queued (by decide) (by decide)
  refine ⟨twoQueued_queued, hfive, by decide, fun fuel => ?_⟩
  have hlinked := twoQueued_queued.linked
  have hrecord : record twoQueued.siList = some twoQueued.siList := by decide
  have hfirst : ∀ z ∈ [0x20001000], ¬twoQueued.Matches (sigMask 7) z := by
    intro z hz
    rw [List.mem_singleton.1 hz]
    decide
  have hboth : ∀ z ∈ [0x20001000] ++ [0x20001010], ¬twoQueued.Matches (sigMask 7) z := by
    intro z hz
    rcases List.mem_append.1 hz with hz | hz
    · exact hfirst z hz
    · rw [List.mem_singleton.1 hz]
      decide
  have hstuck : ¬twoQueued.Matches (sigMask 7) (-8) := by decide
  rw [hrecord] at hlinked
  have hloop : waitLoop (sigMask 7) fuel 0 twoQueued.siList twoQueued = none := by
    match fuel with
    | 0 => rw [waitLoop]
    | 1 =>
      have hskip := waitLoop_skip (l := [0x20001000]) hlinked (by simp) hfirst 0 0
      rw [List.length_singleton] at hskip
      rw [hskip, waitLoop]
    | n + 2 =>
      have hend := waitLoop_past_end (l := [0x20001000]) hlinked (by simp) hboth n 0
      rw [List.length_singleton, Nat.add_comm] at hend
      rw [hend, waitLoop_stuck hstuck (by decide)]
  rw [rtSignalWait_pending (by decide), done, hloop]
  rfl

end RtThread.SignalWait
