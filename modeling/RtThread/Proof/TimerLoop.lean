import RtThread.Proof.TimerState
import Mathlib.Tactic.Linarith

/-!
# The loop of `rt_timer_check`

Expiry is decided by differences of 32-bit ticks. `offset` reads the difference to the current
tick as a signed number; while the timers of the hard list expire within half of the range
(`Spread`), this is their order, whatever the tick is and whenever it wraps around.

* `expiresAfter_iff`, `Spread.due_iff`: the tests of `rt_timer_start` and `rt_timer_check`.
* `Spread.start`, `Spread.tick`, `Spread.fire`: what keeps the timers spread so.
* `Loop.fires`: a check that returns has called each due timer once, and started none of them
  again with 0 ticks.
* `Spread.returns`: else it returns.
-/

namespace RtThread.Timer

open Timers

/-! ## Ticks in a window -/

theorem half_toNat : (rtTickMax / 2).toNat = 0x7fffffff := by decide

/-- Below `RT_TICK_MAX / 2` are the differences that are not negative. -/
theorem lt_half_iff {x : Tick} (h1 : -0x7fffffff ≤ x.toInt) (h2 : x.toInt ≤ 0x7ffffffe) :
    x < rtTickMax / 2 ↔ 0 ≤ x.toInt := by
  rw [BitVec.lt_def, half_toNat]
  rw [BitVec.toInt_eq_toNat_cond] at h1 h2 ⊢
  have := x.isLt
  split at h1 <;> omega

/-- Differences to a common tick subtract, as long as they are close. -/
theorem toInt_sub_sub {a b n : Tick} (h1 : -2 ^ 31 ≤ (a - n).toInt - (b - n).toInt)
    (h2 : (a - n).toInt - (b - n).toInt < 2 ^ 31) :
    (a - b).toInt = (a - n).toInt - (b - n).toInt := by
  have h : a - b = (a - n) - (b - n) := by bv_omega
  rw [h, BitVec.toInt_sub]
  exact Int.bmod_eq_of_le (by omega) (by omega)

theorem toNat_of_nonneg {x : Tick} (h : 0 ≤ x.toInt) : (x.toNat : ℤ) = x.toInt := by
  rw [BitVec.toInt_eq_toNat_cond] at h ⊢
  split at h <;> omega

theorem toInt_of_lt {x : Tick} (h : x < rtTickMax / 2) : x.toInt = x.toNat ∧ x.toNat ≤ 0x7ffffffe := by
  rw [BitVec.lt_def, half_toNat] at h
  rw [BitVec.toInt_eq_toNat_cond]
  split <;> omega

variable {T : Type*}

/-- The ticks until the timer expires; negative if it should have expired. -/
def Timers.offset (s : Timers T) (t : T) : ℤ := ((s.timer t).timeoutTick - s.tick).toInt

/-- The timers of the hard list expire within half of the range, in the order of the list. -/
structure Spread (usingSoft : Bool) (s : Timers T) (lo : ℤ) : Prop where
  hard : ∀ t ∈ s.hardList, (usingSoft && (s.timer t).softTimer) = false
  nodup : s.hardList.Nodup
  sorted : s.hardList.Pairwise fun a b => s.offset a ≤ s.offset b
  bound : ∀ t ∈ s.hardList, lo ≤ s.offset t ∧ s.offset t ≤ 0x7ffffffe

section Spread

variable {usingSoft : Bool} {s s' : Timers T} {lo : ℤ} {t x : T}

theorem offset_congr (h : (s'.timer t).timeoutTick = (s.timer t).timeoutTick)
    (htick : s'.tick = s.tick) : s'.offset t = s.offset t := by
  unfold Timers.offset
  rw [h, htick]

theorem restarts_congr (h : s'.timer t = s.timer t) : s'.restarts t = s.restarts t := by
  unfold Timers.restarts
  rw [h]

/-- Fewer timers, which expire as before. -/
theorem Spread.sub (hw : Spread usingSoft s lo) (hsub : s'.hardList.Sublist s.hardList)
    (htick : s'.tick = s.tick)
    (hsame : ∀ t ∈ s'.hardList, (s'.timer t).timeoutTick = (s.timer t).timeoutTick ∧
      (s'.timer t).softTimer = (s.timer t).softTimer) : Spread usingSoft s' lo := by
  have hoff : ∀ t ∈ s'.hardList, s'.offset t = s.offset t := fun t ht =>
    offset_congr (hsame t ht).1 htick
  refine ⟨fun t ht => ?_, hsub.nodup hw.nodup, ?_, fun t ht => ?_⟩
  · rw [(hsame t ht).2]; exact hw.hard t (hsub.subset ht)
  · refine (hw.sorted.sublist hsub).imp_of_mem fun {a b} ha hb hab => ?_
    rwa [hoff a ha, hoff b hb]
  · rw [hoff t ht]; exact hw.bound t (hsub.subset ht)

/-- If the first timer expires later than now, all do. -/
theorem Spread.later (hw : Spread usingSoft s lo) (hlater : ∀ t ∈ s.hardList.head?, 0 < s.offset t) :
    ∀ t ∈ s.hardList, 0 < s.offset t := by
  intro t ht
  have hsorted := hw.sorted
  cases hl : s.hardList with
  | nil => rw [hl] at ht; cases ht
  | cons x l =>
    have hx : 0 < s.offset x := hlater x (by rw [hl]; rfl)
    rw [hl] at ht hsorted
    rcases List.mem_cons.1 ht with rfl | ht
    · exact hx
    · exact lt_of_lt_of_le hx ((List.pairwise_cons.1 hsorted).1 t ht)

/-- `rt_timer_check`'s test: the timer is at the current tick, or one behind. -/
theorem Spread.due_iff (hw : Spread usingSoft s (-1)) (ht : t ∈ s.hardList) :
    s.due s.tick t = true ↔ s.offset t ≤ 0 := by
  have hb := hw.bound t ht
  have hself : (s.tick - s.tick).toInt = 0 := by simp
  unfold Timers.offset at hb ⊢
  have hneg := toInt_sub_sub (a := s.tick) (b := (s.timer t).timeoutTick) (n := s.tick)
    (by omega) (by omega)
  unfold Timers.due
  rw [decide_eq_true_eq, lt_half_iff (by omega) (by omega), hneg]
  omega

/-- The tick moves on: every timer is one tick nearer. -/
theorem Spread.tick (hw : Spread usingSoft s 0) :
    Spread usingSoft { s with tick := s.tick + 1 } (-1) ∧
      ∀ t ∈ s.hardList, ({ s with tick := s.tick + 1 } : Timers T).offset t = s.offset t - 1 := by
  have hoff : ∀ t ∈ s.hardList,
      ({ s with tick := s.tick + 1 } : Timers T).offset t = s.offset t - 1 := by
    intro t ht
    have hb := hw.bound t ht
    have hone : (s.tick + 1 - s.tick).toInt = 1 := by
      rw [BitVec.add_comm, BitVec.add_sub_cancel]; decide
    unfold Timers.offset at hb ⊢
    change ((s.timer t).timeoutTick - (s.tick + 1)).toInt = _
    rw [toInt_sub_sub (n := s.tick) (by omega) (by omega), hone]
  refine ⟨⟨hw.hard, hw.nodup, ?_, fun t ht => ?_⟩, hoff⟩
  · refine hw.sorted.imp_of_mem fun {a b} ha hb hab => ?_
    rw [hoff a ha, hoff b hb]
    omega
  · rw [hoff t ht]
    have := hw.bound t ht
    omega

variable [DecidableEq T]

omit [DecidableEq T] in
/-- The walk of `rt_timer_start` stops at the timers that expire later. -/
theorem expiresAfter_iff {s : Timers T} (hx : -1 ≤ s.offset x ∧ s.offset x ≤ 0x7ffffffe)
    (ht : 0 ≤ s.offset t ∧ s.offset t ≤ 0x7ffffffe) :
    s.expiresAfter t x = true ↔ s.offset t < s.offset x := by
  unfold Timers.offset at hx ht ⊢
  have hd := toInt_sub_sub (a := (s.timer x).timeoutTick) (b := (s.timer t).timeoutTick)
    (n := s.tick) (by omega) (by omega)
  unfold Timers.expiresAfter
  simp only
  split
  · rename_i h0
    rw [h0, show BitVec.toInt (0 : Tick) = 0 from rfl] at hd
    simp only [Bool.false_eq_true, false_iff]
    omega
  · rename_i h0
    rw [decide_eq_true_eq, lt_half_iff (by omega) (by omega), hd]
    have : ((s.timer x).timeoutTick - (s.timer t).timeoutTick).toInt ≠ 0 := by
      rw [← BitVec.toInt_zero (w := 32)]
      exact fun h => h0 (BitVec.eq_of_toInt_eq h)
    omega

theorem afterStart_offset_same {s : Timers T}
    (hi : (s.timer t).initTick < rtTickMax / 2) :
    (s.afterStart usingSoft t).offset t = (s.timer t).initTick.toNat := by
  unfold Timers.offset
  rw [afterStart_timer_same, afterStart_tick]
  simp only
  rw [BitVec.add_comm, BitVec.add_sub_cancel, (toInt_of_lt hi).1]

theorem afterStart_offset_ne {s : Timers T} (hx : x ≠ t) :
    (s.afterStart usingSoft t).offset x = s.offset x := by
  unfold Timers.offset
  rw [afterStart_timer_ne hx, afterStart_tick]

theorem filter_ne_of_nodup {l : List T} (h : (t :: l).Nodup) : (t :: l).filter (· ≠ t) = l := by
  rw [List.filter_cons_of_neg (by simp), List.filter_eq_self]
  intro a ha
  simpa using ne_of_mem_of_not_mem ha (List.nodup_cons.1 h).1

theorem mem_filter_ne {l : List T} (h : x ∈ l.filter (· ≠ t)) : x ∈ l ∧ x ≠ t := by
  simpa using h

/-- `rt_timer_start` compares the timer with the others of its list. -/
theorem Spread.passes_iff (hw : Spread usingSoft s lo) (hlo : -1 ≤ lo)
    (hi : (s.timer t).initTick < rtTickMax / 2) (hx : x ∈ s.hardList.filter (· ≠ t)) :
    (s.afterStart usingSoft t).expiresAfter t x = true ↔
      (s.afterStart usingSoft t).offset t < (s.afterStart usingSoft t).offset x := by
  have hx := mem_filter_ne hx
  have hb := hw.bound x hx.1
  have hot : (s.afterStart usingSoft t).offset t = (s.timer t).initTick.toNat :=
    afterStart_offset_same hi
  have hsmall := (toInt_of_lt hi).2
  have hox : (s.afterStart usingSoft t).offset x = s.offset x := afterStart_offset_ne hx.2
  rw [← hox] at hb
  exact expiresAfter_iff ⟨by omega, hb.2⟩ (by omega)

/-- **`rt_timer_start`** puts the timer behind those that expire no later. -/
theorem Spread.start (hw : Spread usingSoft s lo) (hlo : -1 ≤ lo) (hlo0 : lo ≤ 0)
    (hi : (s.timer t).initTick < rtTickMax / 2) : Spread usingSoft (s.afterStart usingSoft t) lo := by
  have hiff := fun x => hw.passes_iff (t := t) (x := x) hlo hi
  set s' := s.afterStart usingSoft t with hs'
  -- the other timers are as before
  have hrest : Spread usingSoft { s' with hardList := s.hardList.filter (· ≠ t) } lo := by
    refine hw.sub List.filter_sublist afterStart_tick fun x hx => ?_
    have hx := (mem_filter_ne hx).2
    simp only [hs', afterStart_timer_ne hx, and_self]
  have hot : s'.offset t = (s.timer t).initTick.toNat := afterStart_offset_same hi
  have hsmall := (toInt_of_lt hi).2
  have hlist : s'.hardList = _ := afterStart_hardList
  split at hlist
  · exact hrest.sub (by rw [hlist]) rfl fun x _ => ⟨rfl, rfl⟩
  rename_i hhard
  have hmem : ∀ x ∈ s'.hardList, x = t ∨ x ∈ s.hardList.filter (· ≠ t) := by
    intro x hx
    rwa [hlist, Queue.mem_insertBefore] at hx
  refine ⟨fun x hx => ?_, ?_, ?_, fun x hx => ?_⟩
  · rcases hmem x hx with rfl | hx
    · rw [hs', afterStart_timer_same]
      simpa using hhard
    · exact hrest.hard x hx
  · rw [hlist, (Queue.perm_insertBefore _ _ _).nodup_iff, List.nodup_cons]
    exact ⟨fun ht => (mem_filter_ne ht).2 rfl, hrest.nodup⟩
  · rw [hlist]
    refine Queue.pairwise_insertBefore hrest.sorted ?_ (fun y hy hp => ?_) fun y hy hp => ?_
    · refine hrest.sorted.imp_of_mem fun {a b} ha hb hab hp => ?_
      rw [hiff b hb]
      rw [hiff a ha] at hp
      exact lt_of_lt_of_le hp hab
    · have hp' : ¬ s'.offset t < s'.offset y := by rw [← hiff y hy, hp]; simp
      exact not_lt.1 hp'
    · exact ((hiff y hy).1 hp).le
  · rcases hmem x hx with rfl | hx
    · omega
    · exact hrest.bound x hx

end Spread

/-! ## One turn of the loop -/

section Loop

variable [DecidableEq T] {usingSoft : Bool} {k k₁ k₂ k' : Sys T} {t : T} {fired : List T}

theorem afterCallback_eq (s : Timers T) (t : T) : s.afterCallback usingSoft t =
    if s.restarts t = true then
      if (s.timer t).initTick < rtTickMax / 2 then
        some ((s.setActivated t false).afterStart usingSoft t)
      else none
    else some (s.setActivated t false) := by
  unfold Timers.afterCallback
  rw [rtTimerStart_eq, setActivated_same]

/-- The timer is out of its list, and not activated. -/
def Sys.taken (k : Sys T) (t : T) : Sys T :=
  { k with timers := (k.timers.remove t).setActivated t false }

theorem taken_timer_same :
    (k.taken t).timers.timer t = { k.timers.timer t with activated := false } := by
  unfold Sys.taken
  rw [setActivated_same, remove_timer]

theorem taken_timer_ne {x : T} (hx : x ≠ t) : (k.taken t).timers.timer x = k.timers.timer x := by
  unfold Sys.taken
  rw [setActivated_ne hx, remove_timer]

theorem taken_hardList : (k.taken t).timers.hardList = k.timers.hardList.filter (· ≠ t) := rfl

theorem taken_tick : (k.taken t).timers.tick = k.timers.tick := rfl

/-- One turn of the loop, with a callback that calls no timer function. -/
theorem fire_eq (h1 : Step usingSoft k (.call t) k₁) (h2 : Step usingSoft k₁ .ret k₂) :
    (∃ ct l, k.pc = .checking ct ∧ k.timers.hardList = t :: l ∧ k.timers.due ct t = true) ∧
    k₂ = { (if k.timers.restarts t then
        (k.taken t).started t ((k.taken t).timers.afterStart usingSoft t) else k.taken t) with
      pc := .checking k.timers.tick } := by
  cases h1 with
  | @call ct _ l hpc hhead hdue =>
    refine ⟨⟨ct, l, hpc, hhead, hdue⟩, ?_⟩
    cases h2 with
    | @ret t' s hpc₁ ha =>
      obtain rfl : t = t' := Pc.calling.inj hpc₁
      rw [afterCallback_eq] at ha
      unfold Sys.returned
      cases hr : k.timers.restarts t with
      | false =>
        rw [if_neg (by rw [show (k.timers.remove t).restarts t = false from hr]; simp),
          Option.some.injEq] at ha
        rw [if_neg (by rw [show (k.timers.remove t).restarts t = false from hr]; simp), ← ha]
        rfl
      | true =>
        rw [if_pos (show (k.timers.remove t).restarts t = true from hr)] at ha
        split at ha
        swap
        · simp at ha
        rw [Option.some.injEq] at ha
        rw [if_pos (show (k.timers.remove t).restarts t = true from hr), ← ha]
        rfl

/-- `rt_timer_start` does not return to the loop for a timer of half the range or more. -/
theorem ret_init (h1 : Step usingSoft k (.call t) k₁) (h2 : Step usingSoft k₁ .ret k₂)
    (hr : k.timers.restarts t = true) : (k.timers.timer t).initTick < rtTickMax / 2 := by
  cases h1 with
  | call _ _ _ =>
    cases h2 with
    | ret hpc ha =>
      obtain rfl := Pc.calling.inj hpc
      rw [afterCallback_eq, if_pos (show (k.timers.remove t).restarts t = true from hr)] at ha
      split at ha
      · rename_i hi; exact hi
      · simp at ha

omit [DecidableEq T] in
/-- A timer that the loop has started again expires `initTick` ticks later. -/
theorem restarted_offset {s : Timers T} {x : RtTimer} (htick : s.tick = k.timers.tick)
    (hi : x.initTick < rtTickMax / 2)
    (h : s.timer t = { x with activated := true, timeoutTick := k.timers.tick + x.initTick }) :
    s.offset t = x.initTick.toNat := by
  unfold Timers.offset
  rw [h, htick]
  simp only
  rw [BitVec.add_comm, BitVec.add_sub_cancel, (toInt_of_lt hi).1]

/-- **One turn of the loop** keeps the timers spread: the first timer is due, and leaves the list
or goes back behind. -/
theorem Spread.fire (hw : Spread usingSoft k.timers (-1)) (hpc : k.pc = .checking k.timers.tick)
    (h1 : Step usingSoft k (.call t) k₁) (h2 : Step usingSoft k₁ .ret k₂) :
    ∃ l, k.timers.hardList = t :: l ∧ t ∉ l ∧ k.timers.offset t ≤ 0 ∧
      Spread usingSoft k₂.timers (-1) ∧ k₂.pc = .checking k₂.timers.tick ∧
      k₂.timers.tick = k.timers.tick ∧ (∀ x, x ≠ t → k₂.timers.timer x = k.timers.timer x) ∧
      (k.timers.restarts t = false ∧ k₂.timers.hardList = l ∨
        k.timers.restarts t = true ∧ k₂.timers.timer t = { k.timers.timer t with
          activated := true, timeoutTick := k.timers.tick + (k.timers.timer t).initTick } ∧
        k₂.timers.hardList.Perm (t :: l)) := by
  have hinit := ret_init h1 h2
  obtain ⟨⟨ct, l, hpc', hhead, hdue⟩, rfl⟩ := fire_eq h1 h2
  obtain rfl : k.timers.tick = ct := by rw [hpc] at hpc'; exact Pc.checking.inj hpc'
  have ht : t ∈ k.timers.hardList := by rw [hhead]; exact List.mem_cons_self
  have hnd : (t :: l).Nodup := hhead ▸ hw.nodup
  have hl : k.timers.hardList.filter (· ≠ t) = l := by rw [hhead]; exact filter_ne_of_nodup hnd
  have hw₀ : Spread usingSoft (k.taken t).timers (-1) := by
    refine hw.sub List.filter_sublist rfl fun x hx => ?_
    rw [taken_timer_ne (mem_filter_ne hx).2]
    exact ⟨rfl, rfl⟩
  refine ⟨l, hhead, (List.nodup_cons.1 hnd).1, (hw.due_iff ht).1 hdue, ?_⟩
  cases hr : k.timers.restarts t with
  | false =>
    rw [if_neg (by simp)]
    exact ⟨hw₀, rfl, rfl, fun x hx => taken_timer_ne hx, .inl ⟨rfl, hl⟩⟩
  | true =>
    rw [if_pos rfl]
    have hi : ((k.taken t).timers.timer t).initTick < rtTickMax / 2 := by
      rw [taken_timer_same]; exact hinit hr
    have hlist : ((k.taken t).timers.afterStart usingSoft t).hardList = _ := afterStart_hardList
    rw [if_neg (by rw [taken_timer_same]; simpa using hw.hard t ht), taken_hardList,
      List.filter_filter] at hlist
    simp only [Bool.and_self, hl] at hlist
    have htick : ((k.taken t).timers.afterStart usingSoft t).tick = k.timers.tick :=
      afterStart_tick.trans taken_tick
    refine ⟨hw₀.start le_rfl (by omega) hi, congrArg Pc.checking htick.symm, htick, fun x hx => ?_,
      .inr ⟨rfl, ?_, ?_⟩⟩
    · exact (afterStart_timer_ne hx).trans (taken_timer_ne hx)
    · refine afterStart_timer_same.trans ?_
      rw [taken_timer_same, taken_tick]
    · exact hlist.symm ▸ Queue.perm_insertBefore _ t l

/-! ## The whole loop -/

/-- The loop starts the timer again, if at all, with some ticks and without a failed `RT_ASSERT`. -/
def Timers.StartsAgain (s : Timers T) (t : T) : Prop :=
  s.restarts t = true → (s.timer t).initTick ≠ 0 ∧ (s.timer t).initTick < rtTickMax / 2

omit [DecidableEq T] in
theorem startsAgain_congr {s s' : Timers T} (h : s'.timer t = s.timer t) :
    s'.StartsAgain t ↔ s.StartsAgain t := by
  unfold Timers.StartsAgain
  rw [restarts_congr h, h]

/-- **A check that returns** has called each due timer once, and has started it again as it
should. -/
theorem Loop.fires (h : Loop usingSoft k fired k') (hw : Spread usingSoft k.timers (-1))
    (hpc : k.pc = .checking k.timers.tick) :
    fired.Nodup ∧ (∀ t, t ∈ fired ↔ t ∈ k.timers.hardList ∧ k.timers.offset t ≤ 0) ∧
      ∀ t ∈ k.timers.hardList, k.timers.offset t ≤ 0 → k.timers.StartsAgain t := by
  induction h with
  | @done k k' hst =>
    cases hst with
    | @leave ct hpc' hhead =>
      obtain rfl : k.timers.tick = ct := by rw [hpc] at hpc'; exact Pc.checking.inj hpc'
      have hpos : ∀ t ∈ k.timers.hardList, 0 < k.timers.offset t := by
        refine hw.later fun t ht => ?_
        have h1 := hhead t ht
        have h2 := hw.due_iff (List.mem_of_mem_head? ht)
        rw [h1] at h2
        simpa using h2
      refine ⟨List.nodup_nil, fun t => ⟨fun h => absurd h (by simp), fun h => ?_⟩,
        fun t ht h => ?_⟩
      · exact absurd h.2 (not_le.2 (hpos t h.1))
      · exact absurd h (not_le.2 (hpos t ht))
  | @fire k k₁ k₂ k' t fired h1 h2 _ ih =>
    have hinit := ret_init h1 h2
    obtain ⟨l, hhead, hnd, hoff, hw₂, hpc₂, htick, hother, hcase⟩ := hw.fire hpc h1 h2
    obtain ⟨hnodup, hmem, hagain⟩ := ih hw₂ hpc₂
    -- what follows `t` is as before
    have hne : ∀ x ∈ l, x ≠ t := fun x hx => ne_of_mem_of_not_mem hx hnd
    have hoffne : ∀ x ∈ l, k₂.timers.offset x = k.timers.offset x := fun x hx =>
      offset_congr (by rw [hother x (hne x hx)]) htick
    have hfired : t ∉ fired ∧ ∀ x, x ≠ t → (x ∈ k₂.timers.hardList ↔ x ∈ l) := by
      rcases hcase with ⟨-, hl₂⟩ | ⟨hr, ht₂, hl₂⟩
      · rw [hmem, hl₂]
        exact ⟨fun h => hnd h.1, fun _ _ => Iff.rfl⟩
      · -- `t` is not due again: else it would start again with 0 ticks
        refine ⟨fun h => ?_, fun x hx => by rw [hl₂.mem_iff]; simp [hx]⟩
        have hoff₂ := restarted_offset htick (hinit hr) ht₂
        obtain ⟨hin, hle⟩ := (hmem t).1 h
        refine (hagain t hin hle ?_).1 ?_
        · unfold Timers.restarts at hr ⊢
          rw [ht₂]
          simp only [Bool.and_eq_true] at hr ⊢
          exact ⟨hr.1, trivial⟩
        · rw [ht₂]
          refine BitVec.eq_of_toNat_eq ?_
          have h0 : BitVec.toNat (0 : Tick) = 0 := rfl
          change (k.timers.timer t).initTick.toNat = _
          omega
    refine ⟨List.nodup_cons.2 ⟨hfired.1, hnodup⟩, fun x => ?_, fun x hx hle => ?_⟩
    · rw [List.mem_cons, hhead, List.mem_cons]
      by_cases hx : x = t
      · subst hx; simp [hoff]
      · rw [hmem x, hfired.2 x hx]
        simp only [hx, false_or, and_congr_right_iff]
        intro hxl
        rw [hoffne x hxl]
    · rw [hhead] at hx
      rcases List.mem_cons.1 hx with rfl | hxl
      · intro hr
        refine ⟨fun h0 => hfired.1 ?_, hinit hr⟩
        rcases hcase with ⟨hr', -⟩ | ⟨-, ht₂, hl₂⟩
        · rw [hr] at hr'; cases hr'
        · have hoff₂ := restarted_offset htick (hinit hr) ht₂
          rw [h0] at hoff₂
          exact (hmem x).2 ⟨hl₂.mem_iff.2 List.mem_cons_self, by rw [hoff₂]; simp⟩
      · rw [← startsAgain_congr (hother x (hne x hxl))]
        exact hagain x ((hfired.2 x (hne x hxl)).2 hxl) (by rw [hoffne x hxl]; exact hle)

/-- **A check returns**, unless it would start a due timer again at once: a timer that it starts
again is not due any more, so each turn leaves one due timer less. -/
theorem Spread.returns : ∀ n (k : Sys T), k.timers.hardList.countP (fun t => k.timers.offset t ≤ 0) ≤ n →
    Spread usingSoft k.timers (-1) → k.pc = .checking k.timers.tick →
    (∀ t ∈ k.timers.hardList, k.timers.offset t ≤ 0 → k.timers.StartsAgain t) →
    ∃ fired k', Loop usingSoft k fired k' := by
  intro n
  induction n with
  | zero =>
    intro k hn hw hpc _
    rw [Nat.le_zero, List.countP_eq_zero] at hn
    refine ⟨[], _, .done (.leave hpc fun t ht => ?_)⟩
    have ht := List.mem_of_mem_head? ht
    have h1 := hw.due_iff ht
    have h2 := hn t ht
    rw [decide_eq_true_eq] at h2
    simpa [h2] using h1
  | succ n ih =>
    intro k hn hw hpc hagain
    by_cases hdue : ∀ t ∈ k.timers.hardList.head?, k.timers.due k.timers.tick t = false
    · exact ⟨[], _, .done (.leave hpc hdue)⟩
    push Not at hdue
    obtain ⟨t, ht, hdue⟩ := hdue
    obtain ⟨l, hl⟩ := List.head?_eq_some_iff.1 ht
    have hdue : k.timers.due k.timers.tick t = true := by simpa using hdue
    have htm : t ∈ k.timers.hardList := by rw [hl]; exact List.mem_cons_self
    have ht := hagain t htm ((hw.due_iff htm).1 hdue)
    have h1 : Step usingSoft k (.call t) { k with timers := k.timers.remove t, pc := .calling t } :=
      .call hpc hl hdue
    obtain ⟨s, hs⟩ : ∃ s, (k.timers.remove t).afterCallback usingSoft t = some s := by
      rw [afterCallback_eq]
      split
      · rename_i hr
        exact ⟨_, if_pos (ht hr).2⟩
      · exact ⟨_, rfl⟩
    have h2 : Step usingSoft { k with timers := k.timers.remove t, pc := .calling t } .ret _ :=
      .ret rfl hs
    obtain ⟨l', hl', hnd, hoff, hw₂, hpc₂, htick, hother, hcase⟩ := hw.fire hpc h1 h2
    set k₂ := ({ k with timers := k.timers.remove t, pc := .calling t } : Sys T).returned t s
    obtain rfl : l = l' := (List.cons.inj (hl.symm.trans hl')).2
    rw [hl, List.countP_cons_of_pos (by simpa using hoff)] at hn
    have hoffne : ∀ x ∈ l, k₂.timers.offset x = k.timers.offset x := fun x hx =>
      offset_congr (by rw [hother x (ne_of_mem_of_not_mem hx hnd)]) htick
    have hcount : l.countP (fun x => k₂.timers.offset x ≤ 0) =
        l.countP (fun x => k.timers.offset x ≤ 0) :=
      List.countP_congr fun x hx => by rw [hoffne x hx]
    have hrest : ∀ x ∈ l, k₂.timers.offset x ≤ 0 → k₂.timers.StartsAgain x := fun x hx hle => by
      rw [startsAgain_congr (hother x (ne_of_mem_of_not_mem hx hnd))]
      exact hagain x (by rw [hl]; exact List.mem_cons_of_mem _ hx) (by rwa [← hoffne x hx])
    obtain ⟨fired, k', h⟩ : ∃ fired k', Loop usingSoft k₂ fired k' := by
      rcases hcase with ⟨-, hl₂⟩ | ⟨hr, ht₂, hl₂⟩
      · refine ih k₂ ?_ hw₂ hpc₂ (by rw [hl₂]; exact hrest)
        rw [hl₂, hcount]
        omega
      · obtain ⟨hti0, hti⟩ := ht hr
        have hoff₂ := restarted_offset htick hti ht₂
        have hpos : 0 < k₂.timers.offset t := by
          have : (k.timers.timer t).initTick.toNat ≠ 0 := fun h0 => hti0 (BitVec.eq_of_toNat_eq h0)
          omega
        refine ih k₂ ?_ hw₂ hpc₂ fun x hx hle => ?_
        · rw [hl₂.countP_eq, List.countP_cons_of_neg (by simpa using hpos), hcount]
          omega
        · rcases List.mem_cons.1 (hl₂.mem_iff.1 hx) with rfl | hx
          · exact absurd hle (not_le.2 hpos)
          · exact hrest x hx hle
    exact ⟨t :: fired, k', .fire h1 h2 h⟩

end Loop

end RtThread.Timer
