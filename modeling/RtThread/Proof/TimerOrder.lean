import RtThread.Proof.TimerLoop

/-!
# Timers expire on time

The timers of the hard list wait in a window of half the range of a tick, between the current
tick and the farthest start (`Window`), in the order of their expiry and, for the same tick, of
their starts.

* `Window.start`, `Window.tick`, `fire_ok`: the window moves with the tick.
* `Loop.fired_ok`: a check calls the due timers, in the order of the list.
* `timer_on_time`: in every run of starts, stops and ticks.
-/

namespace RtThread.Timer

open Timers

/-! ## Ticks in a window -/

variable {T : Type*}

/-- Timer `a` comes before `b`: it expires earlier, or was started earlier with the same expiry. -/
def Sys.Before (k : Sys T) (a b : T) : Prop :=
  k.timers.offset a < k.timers.offset b ∨
    (k.timers.offset a = k.timers.offset b ∧ k.turn a < k.turn b)

/-- The timers of the hard list expire within the window, in the order of the list. -/
structure Window (usingSoft : Bool) (k : Sys T) (lo : ℤ) : Prop where
  hard : ∀ t ∈ k.timers.hardList, (usingSoft && (k.timers.timer t).softTimer) = false
  sorted : k.timers.hardList.Pairwise k.Before
  low : ∀ t ∈ k.timers.hardList, lo ≤ k.timers.offset t
  high : ∀ t ∈ k.timers.hardList, k.timers.offset t ≤ (k.timers.timer t).initTick.toNat
  init : ∀ t ∈ k.timers.hardList, (k.timers.timer t).initTick < rtTickMax / 2
  timeout : ∀ t ∈ k.timers.hardList,
    (k.timers.timer t).timeoutTick = k.startTick t + (k.timers.timer t).initTick
  turn : ∀ t ∈ k.timers.hardList, k.turn t < k.starts

section Window

variable {usingSoft : Bool} {k k' : Sys T} {lo : ℤ} {t x : T}

theorem Window.bound (hw : Window usingSoft k lo) (ht : t ∈ k.timers.hardList) :
    lo ≤ k.timers.offset t ∧ k.timers.offset t ≤ 0x7ffffffe := by
  have h1 := hw.low t ht
  have h2 := hw.high t ht
  have h3 := (toInt_of_lt (hw.init t ht)).2
  omega

theorem Window.nodup (hw : Window usingSoft k lo) : k.timers.hardList.Nodup := by
  refine hw.sorted.imp fun {a b} h hab => ?_
  subst hab
  rcases h with h | ⟨-, h⟩ <;> omega

/-- Fewer timers, otherwise unchanged. -/
theorem Window.sub (hw : Window usingSoft k lo) (hsub : k'.timers.hardList.Sublist k.timers.hardList)
    (htick : k'.timers.tick = k.timers.tick)
    (hsame : ∀ t ∈ k'.timers.hardList,
      ((k'.timers.timer t).timeoutTick = (k.timers.timer t).timeoutTick ∧
        (k'.timers.timer t).initTick = (k.timers.timer t).initTick ∧
        (k'.timers.timer t).softTimer = (k.timers.timer t).softTimer) ∧
      k'.startTick t = k.startTick t ∧ k'.turn t = k.turn t) (hstarts : k.starts ≤ k'.starts) : Window usingSoft k' lo := by
  have hoff : ∀ t ∈ k'.timers.hardList, k'.timers.offset t = k.timers.offset t := by
    intro t ht
    unfold Timers.offset
    rw [(hsame t ht).1.1, htick]
  refine ⟨fun t ht => ?_, ?_, fun t ht => ?_, fun t ht => ?_, fun t ht => ?_, fun t ht => ?_,
    fun t ht => ?_⟩
  · rw [(hsame t ht).1.2.2]; exact hw.hard t (hsub.subset ht)
  · refine (hw.sorted.sublist hsub).imp_of_mem fun {a b} ha hb hab => ?_
    unfold Sys.Before
    rw [hoff a ha, hoff b hb, (hsame a ha).2.2, (hsame b hb).2.2]
    exact hab
  · rw [hoff t ht]; exact hw.low t (hsub.subset ht)
  · rw [hoff t ht, (hsame t ht).1.2.1]; exact hw.high t (hsub.subset ht)
  · rw [(hsame t ht).1.2.1]; exact hw.init t (hsub.subset ht)
  · rw [(hsame t ht).1.1, (hsame t ht).1.2.1, (hsame t ht).2.1]
    exact hw.timeout t (hsub.subset ht)
  · rw [(hsame t ht).2.2]; exact lt_of_lt_of_le (hw.turn t (hsub.subset ht)) hstarts

theorem Window.spread (hw : Window usingSoft k lo) : Spread usingSoft k.timers lo :=
  ⟨hw.hard, hw.nodup, hw.sorted.imp fun h => h.elim le_of_lt fun h => h.1.le, fun _ => hw.bound⟩

/-- The tick moves on: every timer is one tick nearer. -/
theorem Window.tick (hw : Window usingSoft k 0) (pc : Pc T) :
    Window usingSoft
      { k with timers := { k.timers with tick := k.timers.tick + 1 }, pc := pc } (-1) ∧
    ∀ t ∈ k.timers.hardList,
      ({ k.timers with tick := k.timers.tick + 1 } : Timers T).offset t = k.timers.offset t - 1 := by
  have hoff := hw.spread.tick.2
  refine ⟨⟨hw.hard, ?_, fun t ht => ?_, fun t ht => ?_, hw.init, hw.timeout, hw.turn⟩, hoff⟩
  · refine hw.sorted.imp_of_mem fun {a b} ha hb hab => ?_
    unfold Sys.Before at hab ⊢
    simp only [hoff a ha, hoff b hb]
    omega
  · rw [hoff t ht]; have := hw.low t ht; omega
  · rw [hoff t ht]
    exact le_trans (by omega) (hw.high t ht)

variable [DecidableEq T]

/-- **`rt_timer_start` keeps the window.** -/
theorem Window.start (hw : Window usingSoft k lo) (hlo : -1 ≤ lo) (hlo0 : lo ≤ 0)
    (hi : (k.timers.timer t).initTick < rtTickMax / 2) :
    Window usingSoft (k.started t (k.timers.afterStart usingSoft t)) lo := by
  have hiff := fun x => hw.spread.passes_iff (t := t) (x := x) hlo hi
  set s := k.timers.afterStart usingSoft t with hs
  set k' := k.started t s with hk'
  -- the other timers are as before
  have hrest : Window usingSoft
      { k' with timers := { s with hardList := k.timers.hardList.filter (· ≠ t) } } lo := by
    refine hw.sub List.filter_sublist afterStart_tick (fun x hx => ?_) (Nat.le_succ _)
    have hx := (mem_filter_ne hx).2
    simp only [hs, hk', Sys.started, afterStart_timer_ne hx, Function.update_of_ne hx, and_self]
  have hlist : s.hardList = k.timers.hardList.filter (· ≠ t) ∨
      (s.hardList = Queue.insertBefore (s.expiresAfter t) t (k.timers.hardList.filter (· ≠ t)) ∧
        (usingSoft && (s.timer t).softTimer) = false) := by
    rw [hs, afterStart_hardList, afterStart_timer_same]
    split
    · exact .inl rfl
    · rename_i hh
      exact .inr ⟨rfl, by simpa using hh⟩
  have hot : s.offset t = (k.timers.timer t).initTick.toNat := afterStart_offset_same hi
  have hsmall := (toInt_of_lt hi).2
  have hturn : k'.turn t = k.starts := by simp [hk', Sys.started]
  have hstarts : k'.starts = k.starts + 1 := rfl
  rcases hlist with hlist | ⟨hlist, hhard⟩
  · exact hrest.sub (by rw [show k'.timers.hardList = s.hardList from rfl, hlist]) rfl
      (fun x _ => ⟨⟨rfl, rfl, rfl⟩, rfl, rfl⟩) le_rfl
  have hmem : ∀ x ∈ k'.timers.hardList, x = t ∨ x ∈ k.timers.hardList.filter (· ≠ t) := by
    intro x hx
    rwa [show k'.timers.hardList = s.hardList from rfl, hlist, Queue.mem_insertBefore] at hx
  have hold : ∀ x ∈ k.timers.hardList.filter (· ≠ t), k'.turn x < k.starts := by
    intro x hx
    obtain ⟨h1, h2⟩ := mem_filter_ne hx
    simp only [hk', Sys.started, Function.update_of_ne h2]
    exact hw.turn x h1
  refine ⟨fun x hx => ?_, ?_, fun x hx => ?_, fun x hx => ?_, fun x hx => ?_, fun x hx => ?_,
    fun x hx => ?_⟩
  · rcases hmem x hx with rfl | hx
    · exact hhard
    · exact hrest.hard x hx
  · -- behind the timers that expire no later
    rw [show k'.timers.hardList = s.hardList from rfl, hlist]
    refine Queue.pairwise_insertBefore hrest.sorted ?_ (fun y hy hp => ?_) fun y hy hp => ?_
    · refine hrest.sorted.imp_of_mem fun {a b} ha hb hab hp => ?_
      rw [hiff b hb]
      rw [hiff a ha] at hp
      rcases hab with h | ⟨h, -⟩
      · exact lt_trans hp h
      · exact lt_of_lt_of_eq hp h
    · have hp' : ¬ s.offset t < s.offset y := by rw [← hiff y hy, hp]; simp
      rcases lt_or_eq_of_le (not_lt.1 hp') with h | h
      · exact .inl h
      · exact .inr ⟨h, by rw [hturn]; exact hold y hy⟩
    · exact .inl ((hiff y hy).1 hp)
  · rcases hmem x hx with rfl | hx
    · rw [show k'.timers.offset x = s.offset x from rfl, hot]; omega
    · exact hrest.low x hx
  · rcases hmem x hx with rfl | hx
    · rw [show k'.timers.offset x = s.offset x from rfl, hot,
        show k'.timers.timer x = s.timer x from rfl, hs, afterStart_timer_same]
    · exact hrest.high x hx
  · rcases hmem x hx with rfl | hx
    · rw [show k'.timers.timer x = s.timer x from rfl, hs, afterStart_timer_same]
      exact hi
    · exact hrest.init x hx
  · rcases hmem x hx with rfl | hx
    · rw [show k'.timers.timer x = s.timer x from rfl, hs, afterStart_timer_same]
      simp [hk', Sys.started]
    · exact hrest.timeout x hx
  · rcases hmem x hx with rfl | hx
    · rw [hturn, hstarts]; omega
    · rw [hstarts]; exact lt_of_lt_of_le (hold x hx) (Nat.le_succ _)

end Window

/-! ## The loop of `rt_timer_check` -/

section Loop

variable [DecidableEq T] {usingSoft : Bool} {k k₁ k₂ k' : Sys T} {t : T} {fired : List T}

omit [DecidableEq T] in
theorem Window.pc {lo : ℤ} (hw : Window usingSoft k lo) (pc : Pc T) :
    Window usingSoft { k with pc := pc } lo :=
  hw.sub (List.Sublist.refl _) rfl (fun _ _ => ⟨⟨rfl, rfl, rfl⟩, rfl, rfl⟩) le_rfl

theorem Window.taken {lo : ℤ} (hw : Window usingSoft k lo) : Window usingSoft (k.taken t) lo := by
  refine hw.sub List.filter_sublist rfl (fun x hx => ?_) le_rfl
  rw [taken_hardList] at hx
  have hx : x ≠ t := by simpa using (List.mem_filter.1 hx).2
  rw [taken_timer_ne hx]
  exact ⟨⟨rfl, rfl, rfl⟩, rfl, rfl⟩

/-- **One turn of the loop** keeps the window: the first timer is due, and leaves the list or goes
back behind. -/
theorem fire_ok (hw : Window usingSoft k (-1)) (hpc : k.pc = .checking k.timers.tick)
    (h1 : Step usingSoft k (.call t) k₁) (h2 : Step usingSoft k₁ .ret k₂) :
    ∃ l, k.timers.hardList = t :: l ∧ k.timers.offset t ≤ 0 ∧ Window usingSoft k₂ (-1) ∧
      k₂.pc = .checking k₂.timers.tick ∧ k₂.timers.tick = k.timers.tick ∧
      (∀ x, x ≠ t → k₂.timers.timer x = k.timers.timer x) ∧
      (k.timers.restarts t = false ∧ k₂.timers.hardList = l ∨
        k.timers.restarts t = true ∧ k₂.timers.timer t = { k.timers.timer t with
          activated := true, timeoutTick := k.timers.tick + (k.timers.timer t).initTick } ∧
        ∃ l₁ l₂, l = l₁ ++ l₂ ∧ k₂.timers.hardList = l₁ ++ t :: l₂) := by
  obtain ⟨⟨ct, l, hpc', hhead, hdue⟩, rfl⟩ := fire_eq h1 h2
  obtain rfl : k.timers.tick = ct := by rw [hpc] at hpc'; exact Pc.checking.inj hpc'
  have ht : t ∈ k.timers.hardList := by rw [hhead]; exact List.mem_cons_self
  have hl : k.timers.hardList.filter (· ≠ t) = l := by
    rw [hhead]; exact filter_ne_of_nodup (hhead ▸ hw.nodup)
  refine ⟨l, hhead, (hw.spread.due_iff ht).1 hdue, ?_⟩
  have hw₀ : Window usingSoft (k.taken t) (-1) := hw.taken
  cases hr : k.timers.restarts t with
  | false =>
    rw [if_neg (by simp)]
    exact ⟨hw₀.pc _, rfl, rfl, fun x hx => taken_timer_ne hx, .inl ⟨rfl, hl⟩⟩
  | true =>
    rw [if_pos rfl]
    have hi : ((k.taken t).timers.timer t).initTick < rtTickMax / 2 := by
      rw [taken_timer_same]; exact hw.init t ht
    have hlist : ((k.taken t).timers.afterStart usingSoft t).hardList = _ := afterStart_hardList
    rw [if_neg (by rw [taken_timer_same]; simpa using hw.hard t ht), taken_hardList,
      List.filter_filter] at hlist
    simp only [Bool.and_self, hl] at hlist
    obtain ⟨l₁, l₂, h₁, h₂, -⟩ := Queue.insertBefore_eq
      (((k.taken t).timers.afterStart usingSoft t).expiresAfter t) t l
    have htick : ((k.taken t).timers.afterStart usingSoft t).tick = k.timers.tick :=
      afterStart_tick.trans taken_tick
    refine ⟨(hw₀.start le_rfl (by omega) hi).pc _, ?_, htick, fun x hx => ?_,
      .inr ⟨rfl, ?_, l₁, l₂, h₁, hlist.trans h₂⟩⟩
    · exact congrArg Pc.checking htick.symm
    · exact (afterStart_timer_ne hx).trans (taken_timer_ne hx)
    · refine afterStart_timer_same.trans ?_
      rw [taken_timer_same, taken_tick]

/-- **A check calls the due timers in the order of the list**, and none of them is periodic with
0 ticks; what stays expires later. -/
theorem Loop.fired_ok (h : Loop usingSoft k fired k') (hw : Window usingSoft k (-1))
    (hpc : k.pc = .checking k.timers.tick) :
    ∃ rest, k.timers.hardList = fired ++ rest ∧
      (∀ t ∈ fired, k.timers.offset t ≤ 0 ∧
        (k.timers.restarts t = true → (k.timers.timer t).initTick ≠ 0)) ∧
      (∀ t ∈ rest, 0 < k.timers.offset t) ∧ Window usingSoft k' 1 ∧ k'.pc = .idle := by
  induction h with
  | @done k k' hst =>
    cases hst with
    | @leave ct hpc' hhead =>
      obtain rfl : k.timers.tick = ct := by rw [hpc] at hpc'; exact Pc.checking.inj hpc'
      have hpos : ∀ t ∈ k.timers.hardList, 0 < k.timers.offset t := by
        intro t ht
        rcases hl : k.timers.hardList with _ | ⟨x, l⟩
        · rw [hl] at ht; simp at ht
        · have hx : x ∈ k.timers.hardList := by rw [hl]; exact List.mem_cons_self
          have hxpos : 0 < k.timers.offset x := by
            have h1 := hhead x (by rw [hl]; rfl)
            have h2 := hw.spread.due_iff hx
            rw [h1] at h2
            simpa using h2
          have hsorted := hw.sorted
          rw [hl] at ht hsorted
          rcases List.mem_cons.1 ht with rfl | ht
          · exact hxpos
          · rcases (List.pairwise_cons.1 hsorted).1 t ht with h | ⟨h, -⟩ <;> omega
      refine ⟨k.timers.hardList, rfl, by simp, hpos, ?_, rfl⟩
      exact Window.pc { hw with low := hpos } _
  | @fire k k₁ k₂ k' t fired h1 h2 _ ih =>
    obtain ⟨l, hhead, hoff, hw₂, hpc₂, htick, hother, hcase⟩ := fire_ok hw hpc h1 h2
    obtain ⟨rest, hlist, hfired, hrest, hw', hpc'⟩ := ih hw₂ hpc₂
    have hnd : t ∉ l := (List.nodup_cons.1 (hhead ▸ hw.nodup)).1
    have hoffne : ∀ x, x ∈ l → k₂.timers.offset x = k.timers.offset x := fun x hx =>
      offset_congr (by rw [hother x (ne_of_mem_of_not_mem hx hnd)]) htick
    have hti : (k.timers.timer t).initTick < rtTickMax / 2 :=
      hw.init t (by rw [hhead]; exact List.mem_cons_self)
    -- the timers called after `t` are those that follow it
    have hnext : ∀ x ∈ fired, x ∈ l → k.timers.offset x ≤ 0 ∧
        (k.timers.restarts x = true → (k.timers.timer x).initTick ≠ 0) := by
      intro x hx hxl
      have hxt := hother x (ne_of_mem_of_not_mem hxl hnd)
      have := hfired x hx
      rwa [hoffne x hxl, restarts_congr hxt, hxt] at this
    rcases hcase with ⟨hr, hl₂⟩ | ⟨hr, ht₂, l₁, l₂, rfl, hl₂⟩
    · rw [hl₂] at hlist
      refine ⟨rest, by rw [hhead, hlist]; rfl, fun x hx => ?_, fun x hx => ?_, hw', hpc'⟩
      · rcases List.mem_cons.1 hx with rfl | hx
        · exact ⟨hoff, fun h => by rw [hr] at h; simp at h⟩
        · exact hnext x hx (by rw [hlist]; exact List.mem_append_left _ hx)
      · have hxl : x ∈ l := by rw [hlist]; exact List.mem_append_right _ hx
        rw [← hoffne x hxl]
        exact hrest x hx
    · -- `t` went back behind all of them: else it would be periodic with 0 ticks
      have hoff₂ : k₂.timers.offset t = (k.timers.timer t).initTick.toNat :=
        restarted_offset htick hti ht₂
      have hrt : k₂.timers.restarts t = true := by
        unfold Timers.restarts at hr ⊢
        rw [ht₂]
        simp only [Bool.and_eq_true] at hr ⊢
        exact ⟨hr.1, trivial⟩
      have htn : t ∉ fired := by
        intro ht
        obtain ⟨h1, h2⟩ := hfired t ht
        have := h2 hrt
        rw [ht₂] at this
        refine this (BitVec.eq_of_toNat_eq ?_)
        have h0 : BitVec.toNat (0 : Tick) = 0 := rfl
        change (k.timers.timer t).initTick.toNat = _
        omega
      have hti0 : (k.timers.timer t).initTick ≠ 0 := by
        intro h0
        have : t ∈ rest := by
          have : t ∈ fired ++ rest := by rw [← hlist, hl₂]; simp
          exact (List.mem_append.1 this).resolve_left htn
        have := hrest t this
        rw [hoff₂, h0] at this
        simp at this
      rw [hl₂] at hlist
      obtain ⟨m, rfl, hm⟩ : ∃ m, l₁ = fired ++ m ∧ rest = m ++ t :: l₂ := by
        rcases List.append_eq_append_iff.1 hlist with ⟨m, h1, h2⟩ | ⟨m, h1, h2⟩
        · rcases m with _ | ⟨y, m⟩
          · exact ⟨[], by simpa using h1.symm, by simpa using h2.symm⟩
          · obtain ⟨rfl, -⟩ := List.cons.inj h2
            exact absurd (by rw [h1]; simp) htn
        · exact ⟨m, h1, h2⟩
      refine ⟨m ++ l₂, by rw [hhead]; simp, fun x hx => ?_, fun x hx => ?_, hw', hpc'⟩
      · rcases List.mem_cons.1 hx with rfl | hx
        · exact ⟨hoff, fun _ => hti0⟩
        · exact hnext x hx (by simp [hx])
      · have hxl : x ∈ fired ++ m ++ l₂ := by
          rw [List.append_assoc]; exact List.mem_append_right _ hx
        rw [← hoffne x hxl]
        refine hrest x ?_
        rw [hm]
        rcases List.mem_append.1 hx with hx | hx <;> simp [hx]

/-- What every step keeps, a check keeps. -/
theorem Loop.inv {I : Sys T → Prop} (hI : ∀ k a k', I k → NoSelfStart k a → Step usingSoft k a k' → I k')
    (h : Loop usingSoft k fired k') (h0 : I k) : I k' := by
  induction h with
  | done hst => exact hI _ .leave _ h0 trivial hst
  | fire h1 h2 _ ih =>
    refine ih (hI _ .ret _ (hI _ (.call _) _ h0 trivial h1) ?_ h2)
    -- the callback has not started its timer
    cases h1 with
    | call _ _ _ =>
      intro t ht hl
      obtain rfl := Pc.calling.inj ht
      rw [remove_linked] at hl
      exact absurd rfl hl.1

end Loop

/-! ## Runs -/

section Runs

variable [DecidableEq T] {usingSoft : Bool} {k k' : Sys T}

theorem mem_afterStart_hardList {s : Timers T} {t x : T}
    (h : x ∈ (s.afterStart usingSoft t).hardList) : x = t ∨ x ∈ s.hardList := by
  rw [afterStart_hardList] at h
  split at h
  · exact .inr (List.mem_of_mem_filter h)
  · exact (Queue.mem_insertBefore.1 h).imp_right List.mem_of_mem_filter

/-- Soft timers only wait in the soft list. -/
def SoftOk (usingSoft : Bool) (s : Timers T) : Prop :=
  ∀ t ∈ s.softList, (usingSoft && (s.timer t).softTimer) = true

theorem SoftOk.start {s : Timers T} {t : T} (h : SoftOk usingSoft s) :
    SoftOk usingSoft (s.afterStart usingSoft t) := by
  have hsoft : ∀ x, ((s.afterStart usingSoft t).timer x).softTimer = (s.timer x).softTimer := by
    intro x
    by_cases hx : x = t
    · rw [hx, afterStart_timer_same]
    · rw [afterStart_timer_ne hx]
  intro x hx
  rw [hsoft]
  unfold afterStart Timers.link at hx
  rw [modify_same, setActivated_same] at hx
  have hfil : ∀ x ∈ s.softList.filter (· ≠ t), (usingSoft && (s.timer x).softTimer) = true :=
    fun x hx => h x (List.mem_of_mem_filter hx)
  split at hx
  · rename_i hu
    rcases Queue.mem_insertBefore.1 hx with rfl | hx
    · exact hu
    · exact hfil x hx
  · exact hfil x hx

theorem SoftOk.stop {s : Timers T} {t : T} (h : SoftOk usingSoft s) :
    SoftOk usingSoft (s.rtTimerStop t).2 := by
  rw [rtTimerStop_ok]
  split
  · exact h
  · intro x hx
    have hx : x ∈ s.softList.filter (· ≠ t) := hx
    have : (((s.remove t).setActivated t false).timer x).softTimer = (s.timer x).softTimer := by
      by_cases hxt : x = t
      · rw [hxt, setActivated_same]; rfl
      · rw [setActivated_ne hxt]; rfl
    rw [this]
    exact h x (List.mem_of_mem_filter hx)

theorem SoftOk.setActivated {s : Timers T} {t : T} {v : Bool} (h : SoftOk usingSoft s) :
    SoftOk usingSoft (s.setActivated t v) := by
  intro x hx
  have : ((s.setActivated t v).timer x).softTimer = (s.timer x).softTimer := by
    by_cases hxt : x = t
    · rw [hxt, setActivated_same]
    · rw [setActivated_ne hxt]
  rw [this]
  exact h x hx

theorem SoftOk.step {a : Act T} (h : SoftOk usingSoft k.timers) (hst : Step usingSoft k a k') :
    SoftOk usingSoft k'.timers := by
  cases hst with
  | start _ hs =>
    rw [rtTimerStart_eq] at hs
    split at hs
    swap
    · simp at hs
    rw [Option.some.injEq] at hs
    subst hs
    exact h.start
  | stop _ => exact h.stop
  | @control t c _ =>
    intro x hx
    have hsoft : (((k.timers.rtTimerControl t c).2).timer x).softTimer =
        (k.timers.timer x).softTimer := by
      cases c <;> by_cases hx : x = t <;> simp [rtTimerControl, Timers.modify, hx]
    have hlist : (k.timers.rtTimerControl t c).2.softList = k.timers.softList := by
      cases c <;> rfl
    simp only [hsoft]
    simp only [hlist] at hx
    exact h x hx
  | tick => exact h
  | check => exact h
  | call => exact fun x hx => h x (List.mem_of_mem_filter hx)
  | ret _ ha =>
    rw [returned_timers]
    rw [afterCallback_eq] at ha
    split at ha
    · split at ha
      swap
      · simp at ha
      rw [Option.some.injEq] at ha
      subst ha
      exact h.setActivated.start
    · rw [Option.some.injEq] at ha
      subst ha
      exact h.setActivated
  | leave => exact h

/-- The invariant between the operations: all timers of the hard list are ahead of the tick. -/
structure Ahead (usingSoft : Bool) (k : Sys T) : Prop where
  pc : k.pc = .idle
  window : Window usingSoft k 0
  zero : ∀ t ∈ k.timers.hardList, k.timers.offset t = 0 → (k.timers.timer t).initTick = 0
  flags : Consistent k ∧ SoftOk usingSoft k.timers

theorem flags_step {a : Act T} (h : Consistent k ∧ SoftOk usingSoft k.timers)
    (hok : NoSelfStart k a) (hst : Step usingSoft k a k') :
    Consistent k' ∧ SoftOk usingSoft k'.timers :=
  ⟨h.1.step hok hst, h.2.step hst⟩

/-- **A tick**: the check calls the timers that are at most one tick ahead. -/
theorem Ahead.tick {fired : List T} (h : Ahead usingSoft k)
    (hop : OpStep usingSoft k (.tick fired) k') :
    Ahead usingSoft k' ∧ ∃ rest, k.timers.hardList = fired ++ rest ∧
      (∀ t ∈ fired, k.timers.offset t ≤ 1) ∧ ∀ t ∈ rest, 1 < k.timers.offset t := by
  cases hop with
  | tick hst hloop =>
    have hf := flags_step h.flags (a := .tick) trivial hst
    cases hst with
    | tick hpc =>
      obtain ⟨hw, hoff⟩ := h.window.tick (.checking (k.timers.tick + 1))
      obtain ⟨rest, hlist, hfired, hrest, hw', hpc'⟩ := hloop.fired_ok hw rfl
      refine ⟨⟨hpc', { hw' with low := fun t ht => ?_ }, fun t ht h0 => ?_, ?_⟩, rest, hlist,
        fun t ht => ?_, fun t ht => ?_⟩
      · have := hw'.low t ht; omega
      · have := hw'.low t ht; omega
      · exact hloop.inv (I := fun k => Consistent k ∧ SoftOk usingSoft k.timers)
          (fun _ _ _ h hok hst => flags_step h hok hst) hf
      · have h1 := (hfired t ht).1
        have h2 := hoff t (by rw [show k.timers.hardList = fired ++ rest from hlist]; simp [ht])
        rw [h2] at h1
        omega
      · have h1 := hrest t ht
        have h2 := hoff t (by rw [show k.timers.hardList = fired ++ rest from hlist]; simp [ht])
        rw [h2] at h1
        omega

theorem Ahead.step {op : Op T} (h : Ahead usingSoft k) (hop : OpStep usingSoft k op k') :
    Ahead usingSoft k' := by
  cases hop with
  | @start _ t hpc hst =>
    have hf := flags_step h.flags (a := .start t) trivial hst
    cases hst with
    | start _ hs =>
      rw [rtTimerStart_eq] at hs
      split at hs
      swap
      · simp at hs
      rename_i hi
      rw [Option.some.injEq] at hs
      subst hs
      refine ⟨hpc, h.window.start (by omega) le_rfl hi, fun x hx h0 => ?_, hf⟩
      change (k.timers.afterStart usingSoft t).offset x = 0 at h0
      change ((k.timers.afterStart usingSoft t).timer x).initTick = 0
      by_cases hxt : x = t
      · subst hxt
        rw [afterStart_offset_same hi] at h0
        rw [afterStart_timer_same]
        exact BitVec.eq_of_toNat_eq (by simpa using h0)
      · rw [afterStart_offset_ne hxt] at h0
        rw [afterStart_timer_ne hxt]
        exact h.zero x ((mem_afterStart_hardList hx).resolve_left hxt) h0
  | @stop _ t hpc hst =>
    have hf := flags_step h.flags (a := .stop t) trivial hst
    cases hst with
    | stop _ =>
      rw [rtTimerStop_ok] at hf ⊢
      split at hf
      · rename_i hact
        rw [if_pos hact]
        exact h
      · rename_i hact
        rw [if_neg hact]
        refine ⟨hpc, h.window.taken (t := t), fun x hx h0 => ?_, hf⟩
        have hx : x ∈ k.timers.hardList.filter (· ≠ t) := hx
        have hxt : x ≠ t := by simpa using (List.mem_filter.1 hx).2
        have hsame := taken_timer_ne (k := k) hxt
        change ((k.taken t).timers.timer x).initTick = 0
        rw [hsame]
        exact h.zero x (List.mem_of_mem_filter hx) ((offset_congr (by rw [hsame]) taken_tick).symm.trans h0)
  | tick hst hloop => exact (h.tick (.tick hst hloop)).1

omit [DecidableEq T] in
theorem Ahead.init (h : Init k) : Ahead usingSoft k := by
  have hc := h.consistent
  obtain ⟨-, h2, h3, h4⟩ := h
  refine ⟨h4, ⟨?_, ?_, ?_, ?_, ?_, ?_, ?_⟩, ?_, hc, ?_⟩
  · simp [h2]
  · rw [h2]; exact List.Pairwise.nil
  · simp [h2]
  · simp [h2]
  · simp [h2]
  · simp [h2]
  · simp [h2]
  · simp [h2]
  · intro t ht; rw [h3] at ht; simp at ht

end Runs

/-! ## A timer of 0 ticks -/

theorem single_started_ops : Run.Reach Init (OpStep false) Run.Any singleStarted :=
  .step (.init ⟨fun _ => ⟨0, false, false, rfl⟩, rfl, rfl, rfl⟩) trivial
    (.start rfl (.start trivial (by rw [rtTimerStart_eq]; rfl)))

end RtThread.Timer
