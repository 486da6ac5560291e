import RtThread.Spec.Alarm
import Mathlib.Data.List.Nodup
import Mathlib.Data.List.Induction
import Mathlib.Order.Basic
import Mathlib.Order.Lattice
import Mathlib.Tactic.SplitIfs

/-!
# The RTC is armed for the next alarm, where operations meet their conditions

* `scan_ok`: `alarm_update` finds the alarm that comes first of those that are not the current one.
* `update_cases`: what `alarm_update` does.
* `rearm`, `stay`: the RTC is armed behind it, and where nothing is set.
* `alarm_armed`: the RTC is armed behind every operation, in every run whose operations meet their conditions.
* `alarm_unarmed`: an alarm is started and never comes.
-/

namespace RtThread.Rtc

open Time

/-! ## Times of day -/

def InRange (t : Hms) : Prop :=
  (0 ≤ t.tmSec ∧ t.tmSec ≤ 59) ∧ (0 ≤ t.tmMin ∧ t.tmMin ≤ 59) ∧ 0 ≤ t.tmHour ∧ t.tmHour ≤ 23

theorem daysec_range {t : Hms} (h : InRange t) : 0 ≤ alarmMkdaysec t ∧ alarmMkdaysec t < 24 * 3600 := by
  obtain ⟨hs, hm, hh⟩ := h
  unfold alarmMkdaysec uint32
  rw [Int.emod_eq_of_lt (by omega) (by omega)]
  omega

theorem int32_eq {x : ℤ} (h : 0 ≤ x ∧ x < 24 * 3600) : int32 x = x := by
  unfold int32 uint32
  split <;> omega

theorem localtime_range (t : ℕ) : InRange (localtime t).toHms := by
  unfold localtime gmtime InRange
  simp only
  omega

/-- The 29th of February 2000. -/
example : gmtime 951782400 =
    { tmSec := 0, tmMin := 0, tmHour := 0, tmMday := 29, tmMon := 1, tmYear := 100, tmWday := 2 } := by decide

theorem daysecAt_range (t : ℕ) : 0 ≤ daysecAt t ∧ daysecAt t < 24 * 3600 := daysec_range (localtime_range t)

theorem orNow_range {lo hi x now : ℤ} (h : lo ≤ now ∧ now ≤ hi) : lo ≤ orNow lo hi x now ∧ orNow lo hi x now ≤ hi := by
  unfold orNow
  split <;> omega

theorem setupHms_range {t now : Hms} (h : InRange now) : InRange (setupHms t now) :=
  ⟨orNow_range h.1, orNow_range h.2.1, orNow_range h.2.2⟩

theorem insure_range {t : Hms} (h : InRange t) : InRange (insure t) := by
  unfold insure
  split
  · obtain ⟨-, hm, hh⟩ := h
    exact ⟨⟨show (0 : ℤ) ≤ 60 - 2 by decide, show (60 - 2 : ℤ) ≤ 59 by decide⟩, hm, hh⟩
  · exact h

theorem setupDate_hms (mode : ℕ) (t now : Tm) : (setupDate mode t now).1.toHms = t.toHms := by
  unfold setupDate
  repeat' split
  all_goals rfl

variable {a b c : Alarm} {l : List Alarm} {current : Option Addr} {now : ℤ}

/-- An alarm behind `alarm_setup` has a time of day. -/
theorem alarmSetup_ok (a : Alarm) {now : Tm} (h : InRange now.toHms) :
    (alarmSetup a now).2.addr = a.addr ∧ (alarmSetup a now).2.started = a.started ∧
      InRange (alarmSetup a now).2.wktime.toHms := by
  have hms := setupDate_hms a.mode { a.wktime with toHms := setupHms a.wktime.toHms now.toHms } now
  have hrange : InRange (setupHms a.wktime.toHms now.toHms) := setupHms_range h
  unfold alarmSetup
  simp only
  split
  · refine ⟨rfl, rfl, ?_⟩
    show InRange (insure _)
    rw [hms]
    exact insure_range hrange
  · refine ⟨rfl, rfl, ?_⟩
    show InRange (Tm.toHms _)
    rw [hms]
    exact hrange

theorem alarmSetup_inited (a : Alarm) (now : Tm) :
    (alarmSetup a now).2.inited = (a.inited || decide ((alarmSetup a now).1 = .eok)) := by
  unfold alarmSetup
  simp only
  split <;> simp

/-! ## The alarms -/

/-- The alarms are distinct, and those that are set up, and the current one, have a time of day. -/
structure Base (l : List Alarm) (current : Option Addr) : Prop where
  nodup : (l.map Alarm.addr).Nodup
  inited : ∀ a ∈ l, a.started = true → a.inited = true
  range : ∀ a ∈ l, a.inited = true ∨ current = some a.addr → InRange a.wktime.toHms
  member : ∀ p, current = some p → ∃ c ∈ l, c.addr = p

theorem Base.daysec (h : Base l current) (ha : a ∈ l) (hi : a.started = true ∨ current = some a.addr) :
    0 ≤ a.daysec ∧ a.daysec < 24 * 3600 :=
  daysec_range (h.range a ha (hi.imp_left (h.inited a ha)))

theorem Base.eq (h : Base l current) (ha : a ∈ l) (hb : b ∈ l) (he : a.addr = b.addr) : a = b :=
  List.inj_on_of_nodup_map h.nodup ha hb he

theorem Base.none (h : Base l current) : Base l none :=
  ⟨h.nodup, h.inited, fun a ha hi => h.range a ha (hi.imp_right nofun), nofun⟩

theorem Base.some (h : Base l current) (ha : a ∈ l) (hr : InRange a.wktime.toHms) : Base l (some a.addr) := by
  refine ⟨h.nodup, h.inited, ?_, ?_⟩
  · rintro b hb (hi | hc)
    · exact h.range b hb (.inl hi)
    · rw [h.eq hb ha (Option.some.inj hc).symm]
      exact hr
  · rintro p hp
    exact ⟨a, ha, Option.some.inj hp⟩

/-- A change that leaves addresses and times, and starts nothing. -/
theorem Base.map (h : Base l current) {f : Alarm → Alarm} (haddr : ∀ a ∈ l, (f a).addr = a.addr)
    (hw : ∀ a ∈ l, (f a).wktime = a.wktime) (hi : ∀ a ∈ l, (f a).inited = a.inited)
    (hs : ∀ a ∈ l, (f a).started = true → a.started = true) : Base (l.map f) current := by
  refine ⟨?_, ?_, ?_, ?_⟩
  · have hmap : (l.map f).map Alarm.addr = l.map Alarm.addr := by
      rw [List.map_map]
      exact List.map_congr_left haddr
    rw [hmap]
    exact h.nodup
  · intro b hb hst
    obtain ⟨a, ha, rfl⟩ := List.mem_map.1 hb
    rw [hi a ha]
    exact h.inited a ha (hs a ha hst)
  · intro b hb hor
    obtain ⟨a, ha, rfl⟩ := List.mem_map.1 hb
    rw [hi a ha, haddr a ha] at hor
    rw [hw a ha]
    exact h.range a ha hor
  · intro p hp
    obtain ⟨c, hc, rfl⟩ := h.member p hp
    exact ⟨f c, List.mem_map_of_mem hc, haddr c hc⟩

variable {s : State}

theorem mem_set (ha : ∃ x ∈ s.alarms, x.addr = a.addr) :
    b ∈ (s.set a).alarms ↔ b = a ∨ b ∈ s.alarms ∧ b.addr ≠ a.addr := by
  unfold State.set
  simp only [List.mem_map]
  constructor
  · rintro ⟨x, hx, rfl⟩
    by_cases he : x.addr = a.addr
    · rw [if_pos he]
      exact .inl rfl
    · rw [if_neg he]
      exact .inr ⟨hx, he⟩
  · rintro (rfl | ⟨hb, hne⟩)
    · obtain ⟨x, hx, he⟩ := ha
      exact ⟨x, hx, if_pos he⟩
    · exact ⟨b, hb, if_neg hne⟩

/-- One alarm has changed. -/
theorem Base.set (h : Base s.alarms current) (ha : ∃ x ∈ s.alarms, x.addr = a.addr)
    (hs : a.started = true → a.inited = true) (hr : a.inited = true ∨ current = Option.some a.addr → InRange a.wktime.toHms) :
    Base (s.set a).alarms current := by
  refine ⟨?_, ?_, ?_, ?_⟩
  · have hmap : (s.set a).alarms.map Alarm.addr = s.alarms.map Alarm.addr := by
      unfold State.set
      rw [List.map_map]
      refine List.map_congr_left fun b _ => ?_
      by_cases he : b.addr = a.addr
      · rw [Function.comp_apply, if_pos he, he]
      · rw [Function.comp_apply, if_neg he]
    rw [hmap]
    exact h.nodup
  · intro b hb hst
    rcases (mem_set ha).1 hb with rfl | ⟨hb, -⟩
    · exact hs hst
    · exact h.inited b hb hst
  · intro b hb hor
    rcases (mem_set ha).1 hb with rfl | ⟨hb, -⟩
    · exact hr hor
    · exact h.range b hb hor
  · intro p hp
    obtain ⟨c, hc, rfl⟩ := h.member p hp
    by_cases he : c.addr = a.addr
    · exact ⟨a, (mem_set ha).2 (.inl rfl), he.symm⟩
    · exact ⟨c, (mem_set ha).2 (.inr ⟨hc, he⟩), rfl⟩

theorem set_self (h : Base s.alarms current) (ha : a ∈ s.alarms) : s.set a = s := by
  have hmap : s.alarms.map (fun b => if b.addr = a.addr then a else b) = s.alarms.map id := by
    refine List.map_congr_left fun b hb => ?_
    by_cases he : b.addr = a.addr
    · rw [if_pos he]
      exact h.eq ha hb he.symm
    · rw [if_neg he]
      rfl
  unfold State.set
  rw [hmap, List.map_id]

/-! ## `alarm_update` -/

variable {precision : Hms → Hms}

theorem alarmSet_eq (hp : ∀ t, precision t = t) (a : Alarm) : alarmSet precision a = (a, ⟨a.started, a.wktime.toHms⟩) := by
  unfold alarmSet
  simp only [hp]
  split <;> rfl

theorem arm_eq (hp : ∀ t, precision t = t) (h : Base s.alarms current) (ha : a ∈ s.alarms) (hst : a.started = true) :
    s.arm precision (some a) = { s with wkalarm := ⟨true, a.wktime.toHms⟩, current := some a.addr } := by
  simp only [State.arm, State.alarmSet, alarmSet_eq hp, set_self h ha, hst]

/-- A stopped alarm does not expire. -/
theorem mem_expire (now : Tm) (ha : a ∈ l) (hstop : a.started = false) : a ∈ expire now l := by
  have hno : ¬a.expires now = true := by
    unfold Alarm.expires Alarm.wakes
    rw [hstop]
    simp
  exact List.mem_map.2 ⟨a, ha, if_neg hno⟩

theorem Base.expire (h : Base l current) (now : Tm) : Base (expire now l) current := by
  refine h.map ?_ ?_ ?_ ?_ <;> intro a _ <;> split <;> simp

/-- The alarms behind the first loop, and the RTC if nothing has expired. -/
theorem wakeups_ok (hp : ∀ t, precision t = t) (now : Tm) (l : List Alarm) (w : Wkalarm) :
    (wakeups precision now l w).1 = expire now l ∧ (expire now l = l → (wakeups precision now l w).2.1 = w) := by
  induction l generalizing w with
  | nil => exact ⟨rfl, fun _ => rfl⟩
  | cons a l ih =>
    unfold wakeups
    by_cases hex : a.expires now = true
    · simp only [if_pos hex, alarmSet_eq hp]
      obtain ⟨hl, -⟩ := ih ⟨false, a.wktime.toHms⟩
      refine ⟨?_, ?_⟩
      · rw [hl, Rtc.expire, Rtc.expire, List.map_cons, if_pos hex]
      · intro heq
        have hst : a.started = true := by
          unfold Alarm.expires Alarm.wakes at hex
          simp only [Bool.and_eq_true] at hex
          exact hex.2.1
        rw [Rtc.expire, List.map_cons, if_pos hex] at heq
        have hstop := congrArg Alarm.started (List.cons.inj heq).1
        rw [hst] at hstop
        cases hstop
    · simp only [if_neg hex]
      obtain ⟨hl, hw⟩ := ih w
      refine ⟨?_, ?_⟩
      · rw [hl, Rtc.expire, Rtc.expire, List.map_cons, if_neg hex]
      · intro heq
        rw [Rtc.expire, List.map_cons, if_neg hex] at heq
        exact hw (List.cons.inj heq).2

/-- A started alarm that is not the current one. -/
def Candidate (current : Option Addr) (a : Alarm) : Prop := a.started = true ∧ current ≠ some a.addr

/-- `alm_next` and `sec_next` are those of the first alarm of `l` that comes later today. -/
def NextFound (current : Option Addr) (now : ℤ) (l : List Alarm) (sec : ℤ) (alm : Option Alarm) : Prop :=
  sec = 24 * 3600 ∧ (∀ a ∈ l, Candidate current a → a.daysec ≤ now) ∨
    ∃ a ∈ l, Candidate current a ∧ alm = some a ∧ sec = a.daysec - now ∧ now < a.daysec ∧
      ∀ b ∈ l, Candidate current b → now < b.daysec → a.daysec ≤ b.daysec

/-- `alm_prev` and `sec_prev` are those of the first alarm of `l` that has passed today. -/
def PrevFound (current : Option Addr) (now : ℤ) (l : List Alarm) (sec : ℤ) (alm : Option Alarm) : Prop :=
  sec = 0 ∧ (∀ a ∈ l, Candidate current a → now ≤ a.daysec) ∨
    ∃ a ∈ l, Candidate current a ∧ alm = some a ∧ sec = a.daysec - now ∧ a.daysec < now ∧
      ∀ b ∈ l, Candidate current b → a.daysec ≤ b.daysec

theorem forall_mem_snoc {P : Alarm → Prop} (hl : ∀ b ∈ l, P b) (ha : P a) : ∀ b ∈ l ++ [a], P b := by
  intro b hb
  rcases List.mem_append.1 hb with hb | hb
  · exact hl b hb
  · rw [List.mem_singleton.1 hb]
    exact ha

section

variable {sec : ℤ} {alm : Option Alarm}

theorem NextFound.keep (h : NextFound current now l sec alm) (hnow : 0 ≤ now)
    (ha : Candidate current a → a.daysec < 24 * 3600 ∧ (now < a.daysec → sec ≤ a.daysec - now)) :
    NextFound current now (l ++ [a]) sec alm := by
  rcases h with ⟨hsec, hno⟩ | ⟨n, hn, hc, halm, hsec, hlt, hmin⟩
  · refine .inl ⟨hsec, forall_mem_snoc hno fun hca => ?_⟩
    obtain ⟨hday, hle⟩ := ha hca
    by_contra hlt
    have := hle (by omega)
    omega
  · refine .inr ⟨n, List.mem_append_left _ hn, hc, halm, hsec, hlt, forall_mem_snoc hmin fun hca hlta => ?_⟩
    have := (ha hca).2 hlta
    omega

theorem NextFound.take (h : NextFound current now l sec alm) (hc : Candidate current a) (hlt : now < a.daysec)
    (hsec : a.daysec - now < sec) : NextFound current now (l ++ [a]) (a.daysec - now) (some a) := by
  refine .inr ⟨a, List.mem_append_right _ (List.mem_singleton_self a), hc, rfl, rfl, hlt,
    forall_mem_snoc (fun b hb hcb hltb => ?_) fun _ _ => le_rfl⟩
  rcases h with ⟨-, hno⟩ | ⟨n, -, -, -, hx, -, hmin⟩
  · exact absurd hltb (not_lt.2 (hno b hb hcb))
  · have := hmin b hb hcb hltb
    omega

theorem PrevFound.keep (h : PrevFound current now l sec alm) (ha : Candidate current a → sec ≤ a.daysec - now) :
    PrevFound current now (l ++ [a]) sec alm := by
  rcases h with ⟨hsec, hno⟩ | ⟨n, hn, hc, halm, hsec, hlt, hmin⟩
  · refine .inl ⟨hsec, forall_mem_snoc hno fun hca => ?_⟩
    have := ha hca
    omega
  · refine .inr ⟨n, List.mem_append_left _ hn, hc, halm, hsec, hlt, forall_mem_snoc hmin fun hca => ?_⟩
    have := ha hca
    omega

theorem PrevFound.nonpos (h : PrevFound current now l sec alm) : sec ≤ 0 := by
  rcases h with ⟨hsec, -⟩ | ⟨n, -, -, -, hsec, hlt, -⟩ <;> omega

theorem PrevFound.take (h : PrevFound current now l sec alm) (hc : Candidate current a) (hsec : a.daysec - now < sec) :
    PrevFound current now (l ++ [a]) (a.daysec - now) (some a) := by
  have hneg := h.nonpos
  refine .inr ⟨a, List.mem_append_right _ (List.mem_singleton_self a), hc, rfl, rfl, by omega,
    forall_mem_snoc (fun b hb hcb => ?_) fun _ => le_rfl⟩
  rcases h with ⟨hx, hno⟩ | ⟨n, -, -, -, hx, -, hmin⟩
  · have := hno b hb hcb
    omega
  · have := hmin b hb hcb
    omega

end

/-- What the second loop has found in `l`. -/
structure Scanned (current : Option Addr) (now : ℤ) (l : List Alarm) (x : Scan) : Prop where
  next : NextFound current now l x.secNext x.almNext
  prev : PrevFound current now l x.secPrev x.almPrev

/-- **A pass of the second loop.** -/
theorem Scanned.step {x : Scan} (h : Scanned current now l x) (hnow : 0 ≤ now)
    (ha : Candidate current a → 0 ≤ a.daysec ∧ a.daysec < 24 * 3600) :
    Scanned current now (l ++ [a]) (scan current now x a) := by
  have hneg := h.prev.nonpos
  unfold scan
  split_ifs with hc
  · have hr := ha hc
    have hsec : int32 (alarmMkdaysec a.wktime.toHms) = a.daysec := int32_eq hr
    simp only [hsec]
    split_ifs with hpos hlt hlt
    · exact ⟨h.next.take hc (by omega) hlt, h.prev.keep fun _ => by omega⟩
    · exact ⟨h.next.keep hnow fun _ => ⟨hr.2, fun _ => by omega⟩, h.prev.keep fun _ => by omega⟩
    · exact ⟨h.next.keep hnow fun _ => ⟨hr.2, fun _ => by omega⟩, h.prev.take hc hlt⟩
    · exact ⟨h.next.keep hnow fun _ => ⟨hr.2, fun _ => by omega⟩, h.prev.keep fun _ => by omega⟩
  · exact ⟨h.next.keep hnow fun hca => absurd hca hc, h.prev.keep fun hca => absurd hca hc⟩

theorem scan_ok (h : Base l current) (hnow : 0 ≤ now) :
    Scanned current now l (l.foldl (scan current now) ⟨24 * 3600, none, 0, none⟩) := by
  have hrange : ∀ a ∈ l, Candidate current a → 0 ≤ a.daysec ∧ a.daysec < 24 * 3600 :=
    fun a ha hc => h.daysec ha (.inl hc.1)
  clear h
  induction l using List.reverseRecOn with
  | nil => exact ⟨.inl ⟨rfl, List.forall_mem_nil _⟩, .inl ⟨rfl, List.forall_mem_nil _⟩⟩
  | append_singleton l a ih =>
    rw [List.foldl_append, List.foldl_cons, List.foldl_nil]
    exact (ih fun b hb => hrange b (List.mem_append_left _ hb)).step hnow
      (hrange a (List.mem_append_right _ (List.mem_singleton_self a)))

/-- Behind the first loop. -/
def Woken (s s₁ : State) (t₁ : ℕ) : Prop :=
  s₁.alarms = expire (localtime t₁) s.alarms ∧ s₁.current = s.current ∧
    (expire (localtime t₁) s.alarms = s.alarms → s₁.wkalarm = s.wkalarm)

/-- **What `alarm_update` does**: it sets the RTC to the alarm that comes first of those that are not the current
one, unless all of these come in this very second. -/
theorem update_cases (hp : ∀ t, precision t = t) (h : Base s.alarms s.current) (t₁ t₂ : ℕ) :
    ∃ s₁, Woken s s₁ t₁ ∧
      ((∃ a ∈ s₁.alarms, Candidate s.current a ∧ a.daysec ≠ daysecAt t₂ ∧
          (∀ b ∈ s₁.alarms, Candidate s.current b →
            secondsUntil (daysecAt t₂) a.daysec ≤ secondsUntil (daysecAt t₂) b.daysec) ∧
          s.alarmUpdate precision t₁ t₂ = { s₁ with wkalarm := ⟨true, a.wktime.toHms⟩, current := some a.addr }) ∨
        (∀ a ∈ s₁.alarms, Candidate s.current a → a.daysec = daysecAt t₂) ∧ s.alarmUpdate precision t₁ t₂ = s₁) := by
  have hnow := daysecAt_range t₂
  have hsec : int32 (alarmMkdaysec (localtime t₂).toHms) = daysecAt t₂ := int32_eq hnow
  by_cases hnil : s.alarms = []
  · refine ⟨s, ⟨?_, rfl, fun _ => rfl⟩, .inr ⟨?_, ?_⟩⟩
    · rw [hnil]
      rfl
    · rw [hnil]
      exact List.forall_mem_nil _
    · unfold State.alarmUpdate
      rw [if_pos hnil]
  · obtain ⟨halarms, hw⟩ := wakeups_ok hp (localtime t₁) s.alarms s.wkalarm
    have hwoken : Woken s (s.wakeups precision t₁) t₁ := ⟨halarms, rfl, hw⟩
    have hbase : Base (s.wakeups precision t₁).alarms s.current := hwoken.1 ▸ h.expire _
    have hscan := scan_ok hbase hnow.1
    refine ⟨s.wakeups precision t₁, hwoken, ?_⟩
    unfold State.alarmUpdate
    rw [if_neg hnil]
    simp only [hsec]
    rw [show (s.wakeups precision t₁).current = s.current from rfl]
    rcases hscan.next with ⟨hx, hno⟩ | ⟨a, ha, hc, halm, hx, hlt, hmin⟩
    · rw [if_neg (by omega)]
      rcases hscan.prev with ⟨hx', hno'⟩ | ⟨a, ha, hc, halm, hx', hlt, hmin⟩
      · rw [if_neg (by omega)]
        refine .inr ⟨fun b hb hcb => ?_, rfl⟩
        have := hno b hb hcb
        have := hno' b hb hcb
        omega
      · rw [if_pos (by omega), halm, arm_eq hp hbase ha hc.1]
        refine .inl ⟨a, ha, hc, by omega, fun b hb hcb => ?_, rfl⟩
        have := hno b hb hcb
        have := hmin b hb hcb
        unfold secondsUntil
        split_ifs <;> omega
    · have hday := hbase.daysec ha (.inl hc.1)
      rw [if_pos (by omega), halm, arm_eq hp hbase ha hc.1]
      refine .inl ⟨a, ha, hc, by omega, fun b hb hcb => ?_, rfl⟩
      have := hmin b hb hcb
      have := hbase.daysec hb (.inl hcb.1)
      unfold secondsUntil
      split_ifs <;> omega

/-- What the RTC is set to: the current alarm, unless none is started. -/
def IsSet (s : State) : Prop :=
  ∀ a ∈ s.alarms, a.started = true →
    ∃ c ∈ s.alarms, s.current = some c.addr ∧ c.started = true ∧ s.wkalarm = ⟨true, c.wktime.toHms⟩

/-- The RTC is armed at `now`. -/
structure Good (now : ℤ) (s : State) : Prop where
  base : Base s.alarms s.current
  set : IsSet s
  stays : Stays now s.current s.alarms

/-- **The RTC is armed** behind `alarm_update`. -/
theorem rearm (hp : ∀ t, precision t = t) (h : Base s.alarms s.current)
    (hw : ∀ c ∈ s.alarms, s.current = some c.addr → c.started = true → s.wkalarm = ⟨true, c.wktime.toHms⟩)
    {t₁ t₂ : ℕ} (hr : Rearms (daysecAt t₂) s.current (expire (localtime t₁) s.alarms) s.alarms) :
    Good (daysecAt t₂) (s.alarmUpdate precision t₁ t₂) := by
  obtain ⟨s₁, ⟨halarms, hcur, hkeep⟩, hcase⟩ := update_cases hp h t₁ t₂
  have hbase : Base s₁.alarms s.current := halarms ▸ h.expire _
  rw [← halarms] at hr hkeep
  rcases hcase with ⟨a, ha, hc, hne, hmin, heq⟩ | ⟨hno, heq⟩
  · rw [heq]
    refine ⟨hbase.some ha (hbase.range a ha (.inl (hbase.inited a ha hc.1))), ?_, ?_⟩
    · exact fun b hb hst => ⟨a, ha, rfl, hc.1, rfl⟩
    · intro c hcm hca hcs b hb hst
      obtain rfl : a = c := hbase.eq ha hcm (Option.some.inj hca)
      by_cases hcb : s.current = some b.addr
      · rcases hr with hr | ⟨x, hx, hxs, hxc, -, hxmin⟩ | ⟨-, hr, -⟩
        · rw [hr b hb] at hst
          cases hst
        · exact (hmin x hx ⟨hxs, hxc⟩).trans (hxmin b hb hcb hst)
        · exact absurd (hr a ha hc.1 hc.2) hne
      · exact hmin b hb ⟨hst, hcb⟩
  · rw [heq]
    rcases hr with hr | ⟨x, hx, hxs, hxc, hxn, -⟩ | ⟨⟨c, hcm, hcc, hcs⟩, hr, hsame⟩
    · refine ⟨hcur ▸ hbase, fun b hb hst => ?_, fun c hcm _ hcs => ?_⟩
      · rw [hr b hb] at hst
        cases hst
      · rw [hr c hcm] at hcs
        cases hcs
    · exact absurd (hno x hx ⟨hxs, hxc⟩) hxn
    · have hwk : s₁.wkalarm = ⟨true, c.wktime.toHms⟩ := by
        rw [hkeep hsame]
        exact hw c (hsame ▸ hcm) hcc hcs
      refine ⟨hcur ▸ hbase, fun b _ _ => ⟨c, hcm, hcur ▸ hcc, hcs, hwk⟩, fun c' hcm' hcc' _ b hb hst => ?_⟩
      obtain rfl : c = c' := hbase.eq hcm hcm' (Option.some.inj (hcc.symm.trans (hcur ▸ hcc')))
      by_cases hcb : s.current = some b.addr
      · rw [hbase.eq hcm hb (Option.some.inj (hcc.symm.trans hcb))]
      · -- the others come in this very second, which is 24 hours away
        have hnow := hno b hb ⟨hst, hcb⟩
        have hday := hbase.daysec hcm (.inl hcs)
        have hnowr := daysecAt_range t₂
        unfold secondsUntil
        split_ifs <;> omega

/-! ## The operations -/

/-- An alarm that is stopped changes, and stays stopped. -/
theorem change_ok (now : ℤ) (hb : Base s.alarms s.current) (hset : IsSet s)
    (ha : ∃ x ∈ s.alarms, x.addr = a.addr ∧ x.started = false) (hstop : a.started = false) (hr : InRange a.wktime.toHms) :
    Base (s.set a).alarms s.current ∧ IsSet (s.set a) ∧
      (Stays now s.current s.alarms → Stays now s.current (s.set a).alarms) := by
  obtain ⟨x, hx, hxa, hxs⟩ := ha
  have hmem := fun b => @mem_set a b s ⟨x, hx, hxa⟩
  have hold : ∀ b ∈ (s.set a).alarms, b.started = true → b ∈ s.alarms := by
    intro b hb hst
    rcases (hmem b).1 hb with rfl | ⟨hb, -⟩
    · rw [hstop] at hst
      cases hst
    · exact hb
  refine ⟨hb.set ⟨x, hx, hxa⟩ (fun hst => ?_) fun _ => hr, fun b hb' hst => ?_, fun hstay c hc hcur hst b hb' hbs => ?_⟩
  · rw [hstop] at hst
    cases hst
  · obtain ⟨c, hc, hcur, hcs, hw⟩ := hset b (hold b hb' hst) hst
    refine ⟨c, (hmem c).2 (.inr ⟨hc, fun he => ?_⟩), hcur, hcs, hw⟩
    rw [hb.eq hc hx (he.trans hxa.symm), hxs] at hcs
    cases hcs
  · exact hstay c (hold c hc hst) hcur hst b (hold b hb' hbs) hbs

theorem create_ok {p : Addr} {callback : Bool} {flag : ℕ} {wktime : Tm} (hb : Base s.alarms s.current) (hset : IsSet s)
    (hnew : s.find p = none) (hstay : Stays now s.current s.alarms) :
    Good now (s.rtAlarmCreate p callback flag wktime) := by
  have hno : ∀ a ∈ s.alarms, a.addr ≠ p := by
    intro a ha he
    exact List.find?_eq_none.1 hnew a ha (decide_eq_true he)
  have hold : ∀ a ∈ (s.rtAlarmCreate p callback flag wktime).alarms, a.started = true → a ∈ s.alarms := by
    intro a ha hst
    rcases List.mem_cons.1 ha with rfl | ha
    · cases hst
    · exact ha
  refine ⟨⟨List.nodup_cons.2 ⟨?_, hb.nodup⟩, fun a ha hst => hb.inited a (hold a ha hst) hst, ?_, ?_⟩, ?_, ?_⟩
  · intro hp
    obtain ⟨a, ha, he⟩ := List.mem_map.1 hp
    exact hno a ha he
  · rintro a ha hor
    rcases List.mem_cons.1 ha with rfl | ha
    · rcases hor with hi | hc
      · cases hi
      · obtain ⟨c, hcm, hcp⟩ := hb.member p hc
        exact absurd hcp (hno c hcm)
    · exact hb.range a ha hor
  · intro q hq
    obtain ⟨c, hc, hcq⟩ := hb.member q hq
    exact ⟨c, List.mem_cons_of_mem _ hc, hcq⟩
  · intro a ha hst
    obtain ⟨c, hc, hrest⟩ := hset a (hold a ha hst) hst
    exact ⟨c, List.mem_cons_of_mem _ hc, hrest⟩
  · exact fun c hc hcur hst b hb hbs => hstay c (hold c hc hst) hcur hst b (hold b hb hbs) hbs

/-- The alarm is stopped, and nothing is set. -/
theorem stopped_ok (hb : Base s.alarms s.current) (hset : IsSet s) (ha : a ∈ s.alarms) (hne : s.current ≠ some a.addr)
    (hstay : Stays now s.current (s.without a)) : Good now (s.set { a with started := false }) := by
  have hmem := fun b => @mem_set { a with started := false } b s ⟨a, ha, rfl⟩
  refine ⟨hb.set ⟨a, ha, rfl⟩ nofun fun hor => hb.range a ha hor, ?_, hstay⟩
  intro b hb' hst
  rcases (hmem b).1 hb' with rfl | ⟨hb', -⟩
  · cases hst
  · obtain ⟨c, hc, hcur, hcs, hw⟩ := hset b hb' hst
    exact ⟨c, (hmem c).2 (.inr ⟨hc, fun he => hne (he ▸ hcur)⟩), hcur, hcs, hw⟩

/-- The current alarm is stopped. -/
def State.off (s : State) (precision : Hms → Hms) (a : Alarm) : State :=
  { (s.set { a with started := false }).alarmSet precision { a with started := false } with current := none }

theorem off_eq (hp : ∀ t, precision t = t) (hb : Base s.alarms s.current) (ha : a ∈ s.alarms) :
    s.off precision a = { s.set { a with started := false } with wkalarm := ⟨false, a.wktime.toHms⟩, current := none } := by
  have hbase : Base (s.set { a with started := false }).alarms s.current :=
    hb.set (a := { a with started := false }) ⟨a, ha, rfl⟩ nofun fun hor => hb.range a ha hor
  have hself : { a with started := false } ∈ (s.set { a with started := false }).alarms :=
    (mem_set (a := { a with started := false }) ⟨a, ha, rfl⟩).2 (.inl rfl)
  simp only [State.off, State.alarmSet, alarmSet_eq hp, set_self hbase hself]

/-- The current alarm is stopped, and another one chosen. -/
theorem current_ok (hp : ∀ t, precision t = t) (hb : Base s.alarms s.current) (ha : a ∈ s.alarms) {t₁ t₂ : ℕ}
    (hr : Rearms (daysecAt t₂) none (expire (localtime t₁) (s.without a)) (s.without a)) :
    Good (daysecAt t₂) ((s.off precision a).alarmUpdate precision t₁ t₂) ∧
      ((s.off precision a).alarmUpdate precision t₁ t₂).alarms = expire (localtime t₁) (s.without a) ∧
      ((s.off precision a).alarmUpdate precision t₁ t₂).current ≠ some a.addr := by
  have hself : { a with started := false } ∈ s.without a :=
    (mem_set (a := { a with started := false }) ⟨a, ha, rfl⟩).2 (.inl rfl)
  have hbase : Base (s.without a) none :=
    (hb.set (a := { a with started := false }) ⟨a, ha, rfl⟩ nofun fun hor => hb.range a ha hor).none
  have halarms : (s.off precision a).alarms = s.without a := by
    rw [off_eq hp hb ha]
    rfl
  have hnone : (s.off precision a).current = none := rfl
  have hbase' : Base (s.off precision a).alarms (s.off precision a).current := by
    rw [halarms, hnone]
    exact hbase
  have hgood : Good (daysecAt t₂) ((s.off precision a).alarmUpdate precision t₁ t₂) := by
    refine rearm hp hbase' ?_ ?_
    · intro c _ hc
      rw [hnone] at hc
      cases hc
    · rw [halarms, hnone]
      exact hr
  obtain ⟨s₁, ⟨hl, hcur, -⟩, hcase⟩ := update_cases hp hbase' t₁ t₂
  rw [halarms] at hl
  refine ⟨hgood, ?_⟩
  rcases hcase with ⟨x, hx, hc, -, -, heq⟩ | ⟨-, heq⟩
  · rw [heq]
    refine ⟨hl, fun he => ?_⟩
    have hx : x ∈ expire (localtime t₁) (s.without a) := hl ▸ hx
    have hsame := (hbase.expire (localtime t₁)).eq hx (mem_expire _ hself rfl) (Option.some.inj he)
    rw [hsame] at hc
    cases hc.1
  · rw [heq]
    refine ⟨hl, ?_⟩
    rw [hcur, hnone]
    nofun

theorem rtAlarmStop_eq (s : State) (a : Alarm) (t₁ t₂ : ℕ) : (s.rtAlarmStop precision a t₁ t₂).2 =
    if a.started = true then
      if s.current = some a.addr then (s.off precision a).alarmUpdate precision t₁ t₂
      else s.set { a with started := false }
    else s := by
  have hcur : (s.set { a with started := false }).current = s.current := rfl
  unfold State.rtAlarmStop State.off
  simp only [hcur]
  split_ifs <;> rfl

theorem rtAlarmDelete_eq (s : State) (a : Alarm) (t₁ t₂ : ℕ) : (s.rtAlarmDelete precision a t₁ t₂).2 =
    let s := if s.current = some a.addr then (s.off precision a).alarmUpdate precision t₁ t₂
      else s.set { a with started := false }
    { s with alarms := s.alarms.filter fun b => b.addr ≠ a.addr } := by
  have hcur : (s.set { a with started := false }).current = s.current := rfl
  unfold State.rtAlarmDelete State.off
  simp only [hcur]
  split_ifs <;> rfl

theorem stop_ok (hp : ∀ t, precision t = t) (hb : Base s.alarms s.current) (hset : IsSet s) (ha : a ∈ s.alarms) {o : Op}
    (hm : s.Stops o a) :
    Good (daysecAt o.t₂) (s.rtAlarmStop precision a o.t₁ o.t₂).2 ∧
      ∃ x ∈ (s.rtAlarmStop precision a o.t₁ o.t₂).2.alarms, x.addr = a.addr ∧ x.started = false := by
  have hself : { a with started := false } ∈ s.without a :=
    (mem_set (a := { a with started := false }) ⟨a, ha, rfl⟩).2 (.inl rfl)
  unfold State.Stops at hm
  rw [rtAlarmStop_eq]
  by_cases hst : a.started = true
  · rw [if_pos hst]
    by_cases hcur : s.current = some a.addr
    · rw [if_pos ⟨hst, hcur⟩] at hm
      obtain ⟨hgood, hl, -⟩ := current_ok hp hb ha hm
      rw [if_pos hcur]
      exact ⟨hgood, { a with started := false }, hl ▸ mem_expire _ hself rfl, rfl, rfl⟩
    · rw [if_neg fun hc => hcur hc.2] at hm
      rw [if_neg hcur]
      exact ⟨stopped_ok hb hset ha hcur hm, _, hself, rfl, rfl⟩
  · rw [if_neg hst]
    rw [if_neg fun hc => hst hc.1] at hm
    have hst : a.started = false := Bool.eq_false_iff.2 hst
    have hsame : s.without a = s.alarms := by
      have heq : { a with started := false } = a := by
        rw [← hst]
      unfold State.without
      rw [heq, set_self hb ha]
    rw [hsame] at hm
    exact ⟨⟨hb, hset, hm⟩, a, ha, rfl, hst⟩

/-- An alarm goes that is not the current one. -/
theorem Good.remove (h : Good now s) {p : Addr} (hne : s.current ≠ some p) :
    Good now { s with alarms := s.alarms.filter fun b => b.addr ≠ p } := by
  have hold : ∀ b ∈ s.alarms.filter (fun b => b.addr ≠ p), b ∈ s.alarms := fun b hb => List.mem_of_mem_filter hb
  have hkeep : ∀ b ∈ s.alarms, b.addr ≠ p → b ∈ s.alarms.filter (fun b => b.addr ≠ p) :=
    fun b hb hbp => List.mem_filter.2 ⟨hb, decide_eq_true hbp⟩
  refine ⟨⟨h.base.nodup.sublist (List.filter_sublist.map _), fun b hb => h.base.inited b (hold b hb),
    fun b hb => h.base.range b (hold b hb), ?_⟩, ?_, ?_⟩
  · intro q hq
    obtain ⟨c, hc, rfl⟩ := h.base.member q hq
    exact ⟨c, hkeep c hc fun he => hne (he ▸ hq), rfl⟩
  · intro b hb hst
    obtain ⟨c, hc, hcur, hcs, hw⟩ := h.set b (hold b hb) hst
    exact ⟨c, hkeep c hc fun he => hne (he ▸ hcur), hcur, hcs, hw⟩
  · exact fun c hc hcur hst b hb hbs => h.stays c (hold c hc) hcur hst b (hold b hb) hbs

theorem delete_ok (hp : ∀ t, precision t = t) (hb : Base s.alarms s.current) (hset : IsSet s) (ha : a ∈ s.alarms) {o : Op}
    (hm : s.Deletes o a) : Good (daysecAt o.t₂) (s.rtAlarmDelete precision a o.t₁ o.t₂).2 := by
  unfold State.Deletes at hm
  rw [rtAlarmDelete_eq]
  by_cases hcur : s.current = some a.addr
  · rw [if_pos hcur] at hm
    obtain ⟨hgood, -, hne⟩ := current_ok hp hb ha hm
    rw [if_pos hcur]
    exact hgood.remove hne
  · rw [if_neg hcur] at hm
    have hgood := stopped_ok hb hset ha hcur hm
    rw [if_neg hcur]
    exact hgood.remove hcur

/-- `rt_alarm_start` sets the RTC to the new alarm just where it comes before the current one, and this does not
come in this very second. -/
theorem sets_iff {new old : ℤ} (hnew : 0 ≤ new ∧ new < 24 * 3600)
    (hold : 0 ≤ old ∧ old < 24 * 3600) :
    (new < old ∧ new > now ∨ new > now ∧ old < now ∨ new < old ∧ old < now) ↔
      old ≠ now ∧ secondsUntil now new < secondsUntil now old := by
  unfold secondsUntil
  split_ifs <;> omega

theorem find_eq (h : Base s.alarms current) (hc : c ∈ s.alarms) : s.find c.addr = some c := by
  unfold State.find
  cases hf : s.alarms.find? fun a => a.addr = c.addr with
  | none =>
    have hno := List.find?_eq_none.1 hf c hc
    exact absurd (decide_eq_true rfl) hno
  | some x =>
    have hx : x.addr = c.addr := by simpa using List.find?_some hf
    rw [h.eq (List.mem_of_find?_eq_some hf) hc hx]

/-- An alarm is started and the RTC set to it, where it comes before the others. -/
theorem armed_ok (hp : ∀ t, precision t = t) (hb : Base s.alarms s.current) (ha : a ∈ s.alarms) (hst : a.started = true)
    (hfirst : ∀ x ∈ s.alarms, x.started = true → secondsUntil now a.daysec ≤ secondsUntil now x.daysec) :
    Good now (s.arm precision (some a)) := by
  have hbase : Base s.alarms (some a.addr) := hb.some ha (hb.range a ha (.inl (hb.inited a ha hst)))
  rw [arm_eq hp hb ha hst]
  refine ⟨hbase, fun _ _ _ => ⟨a, ha, rfl, hst, rfl⟩, fun c hc hcur _ x hx hxs => ?_⟩
  rw [← hbase.eq ha hc (Option.some.inj hcur)]
  exact hfirst x hx hxs

/-- **An alarm that has been set up is started.** -/
theorem started_ok (hp : ∀ t, precision t = t) (hb : Base s.alarms s.current) (hset : IsSet s) (ha : a ∈ s.alarms)
    (hin : a.inited = true) (hstop : a.started = false) {t₂ : ℕ} (hm : Starts (daysecAt t₂) s.current s.alarms a) :
    Good (daysecAt t₂) (s.start precision a t₂).2 := by
  have hday : 0 ≤ a.daysec ∧ a.daysec < 24 * 3600 := daysec_range (hb.range a ha (.inl hin))
  have hnow : int32 (alarmMkdaysec (localtime t₂).toHms) = daysecAt t₂ := int32_eq (daysecAt_range t₂)
  unfold State.start
  generalize hbdef : ({ a with started := true } : Alarm) = b
  have haddr : b.addr = a.addr := by rw [← hbdef]
  have hst : b.started = true := by rw [← hbdef]
  have hdaysec : b.daysec = a.daysec := by rw [← hbdef]; rfl
  have hmem := fun x => @mem_set b x s ⟨a, ha, haddr.symm⟩
  have hself : b ∈ (s.set b).alarms := (hmem b).2 (.inl rfl)
  have hbase : Base (s.set b).alarms s.current := by
    refine hb.set ⟨a, ha, haddr.symm⟩ (fun _ => ?_) fun _ => ?_
    · rw [← hbdef]
      exact hin
    · rw [← hbdef]
      exact hb.range a ha (.inl hin)
  have hold : ∀ x ∈ (s.set b).alarms, x ≠ b → x ∈ s.alarms := fun x hx hne => (((hmem x).1 hx).resolve_left hne).1
  have hcurrent : (s.set b).current = s.current := rfl
  simp only [hcurrent, hnow]
  cases hcur : s.current with
  | none =>
    refine armed_ok hp hbase hself hst fun x hx hxs => ?_
    by_cases hxb : x = b
    · rw [hxb]
    · obtain ⟨c, -, hc, -⟩ := hset x (hold x hx hxb) hxs
      rw [hcur] at hc
      cases hc
  | some p =>
    obtain ⟨c, hc, rfl⟩ := hbase.member p hcur
    have hfind : (some c.addr).bind (s.set b).find = some c := find_eq hbase hc
    simp only [hfind]
    have hcday : 0 ≤ c.daysec ∧ c.daysec < 24 * 3600 := hbase.daysec hc (.inr hcur)
    have hold' : int32 (alarmMkdaysec c.wktime.toHms) = c.daysec := int32_eq hcday
    have hnew : int32 (alarmMkdaysec b.wktime.toHms) = a.daysec := by
      rw [← hdaysec]
      exact int32_eq (show 0 ≤ b.daysec ∧ b.daysec < 24 * 3600 from hdaysec ▸ hday)
    rw [hold', hnew]
    simp only [sets_iff hday hcday]
    -- the alarm that is started is not the current one
    have hcb : c ≠ b := by
      rintro rfl
      have hself := (hm a ha (hcur.trans (congrArg some haddr))).2
      rw [if_neg (by rw [hstop]; decide)] at hself
      exact absurd hself.2 (lt_irrefl _)
    have hcs := hold c hc hcb
    obtain ⟨hsec, hmc⟩ := hm c hcs hcur
    split_ifs with hsets
    · refine armed_ok hp hbase hself hst fun x hx hxs => ?_
      rw [hdaysec]
      by_cases hxb : x = b
      · rw [hxb, hdaysec]
      · by_cases hcst : c.started = true
        · rw [if_pos hcst] at hmc
          rcases hmc x (hold x hx hxb) hxs with hle | hle
          · exact hsets.2.le.trans hle
          · exact hle
        · obtain ⟨c', hc', hcur', hcs', -⟩ := hset x (hold x hx hxb) hxs
          rw [hb.eq hc' hcs (Option.some.inj (hcur'.symm.trans hcur))] at hcs'
          exact absurd hcs' hcst
    · have hcst : c.started = true := by
        by_contra hcst
        rw [if_neg hcst] at hmc
        exact hsets hmc
      rw [if_pos hcst] at hmc
      have hle : secondsUntil (daysecAt t₂) c.daysec ≤ secondsUntil (daysecAt t₂) a.daysec := by
        by_cases heq : c.daysec = daysecAt t₂
        · rw [heq, hsec heq]
        · exact not_lt.1 fun hlt => hsets ⟨heq, hlt⟩
      obtain ⟨c', hc', hcur', -, hw⟩ := hset c hcs hcst
      refine ⟨hbase, fun _ _ _ => ⟨c, hc, hcur, hcst, ?_⟩, fun c₂ hc₂ hcur₂ _ x hx hxs => ?_⟩
      · rw [← hb.eq hc' hcs (Option.some.inj (hcur'.symm.trans hcur))]
        exact hw
      · rw [← hbase.eq hc hc₂ (Option.some.inj (hcur.symm.trans hcur₂))]
        by_cases hxb : x = b
        · rw [hxb, hdaysec]
          exact hle
        · rcases hmc x (hold x hx hxb) hxs with hlex | hlex
          · exact hlex
          · exact hle.trans hlex

theorem setUp_ok (hb : Base s.alarms current) (ha : a ∈ s.alarms) (t₁ : ℕ) :
    (setUp a t₁).2.addr = a.addr ∧ (setUp a t₁).2.started = a.started ∧ InRange (setUp a t₁).2.wktime.toHms ∧
      ((setUp a t₁).1 = .eok → (setUp a t₁).2.inited = true) ∧ (a.inited = true → setUp a t₁ = (.eok, a)) := by
  unfold setUp
  by_cases hin : a.inited = true
  · rw [if_pos hin]
    exact ⟨rfl, rfl, hb.range a ha (.inl hin), fun _ => hin, fun _ => rfl⟩
  · rw [if_neg hin]
    obtain ⟨haddr, hst, hr⟩ := alarmSetup_ok a (localtime_range t₁)
    refine ⟨haddr, hst, hr, fun hret => ?_, fun h => absurd h hin⟩
    rw [alarmSetup_inited, hret]
    simp

theorem start_ok (hp : ∀ t, precision t = t) (hb : Base s.alarms s.current) (hset : IsSet s) (ha : a ∈ s.alarms) {o : Op}
    (hm : s.StartsAt o a) : Good (daysecAt o.t₂) (s.rtAlarmStart precision a o.t₁ o.t₂).2 := by
  obtain ⟨haddr, hst, hr, hin, hsame⟩ := setUp_ok hb ha o.t₁
  unfold State.StartsAt at hm
  unfold State.rtAlarmStart
  simp only
  by_cases hstarted : a.started = true
  · rw [if_neg fun h => by rw [h.2] at hstarted; cases hstarted] at hm
    rw [hsame (hb.inited a ha hstarted), set_self hb ha, if_neg (show ¬Err.eok = Err.error from nofun),
      if_neg (by rw [hstarted]; decide)]
    exact ⟨hb, hset, hm⟩
  · have hstop : a.started = false := Bool.eq_false_iff.2 hstarted
    rw [hstop] at hst
    obtain ⟨hb', hset', hstay⟩ := change_ok (daysecAt o.t₂) hb hset ⟨a, ha, haddr.symm, hstop⟩ hst hr
    cases hret : (setUp a o.t₁).1 with
    | error =>
      rw [hret, if_neg fun h => by cases h.1] at hm
      rw [if_pos rfl]
      exact ⟨hb', hset', hstay hm⟩
    | eok =>
      rw [if_pos ⟨hret, hstop⟩] at hm
      rw [if_neg (by decide), if_pos hst]
      exact started_ok hp hb' hset' ((mem_set ⟨a, ha, haddr.symm⟩).2 (.inl rfl)) (hin hret) hst hm

theorem control_ok (hp : ∀ t, precision t = t) (hb : Base s.alarms s.current) (hset : IsSet s) (ha : a ∈ s.alarms) {o : Op}
    {cmd flag : ℕ} {wktime : Tm}
    (hm : if cmd = 1 then s.Stops o a else Stays (daysecAt o.t₂) s.current s.alarms) :
    Good (daysecAt o.t₂) (s.rtAlarmControl precision a cmd flag wktime o.t₁ o.t₂).2 := by
  unfold State.rtAlarmControl
  split_ifs at hm ⊢ with hcmd
  · obtain ⟨hgood, x, hx, hxa, hxs⟩ := stop_ok hp hb hset ha hm
    obtain ⟨haddr, hst, hr⟩ := alarmSetup_ok
      { a with mode := flag &&& 0xFF00, inited := false, started := false, wktime } (localtime_range o.t₂)
    obtain ⟨hb', hset', hstay⟩ := change_ok (daysecAt o.t₂) hgood.base hgood.set
      ⟨x, hx, hxa.trans haddr.symm, hxs⟩ hst hr
    exact ⟨hb', hset', hstay hgood.stays⟩
  · exact ⟨hb, hset, hm⟩

theorem find_mem {p : Addr} (h : s.find p = some a) : a ∈ s.alarms := List.mem_of_find?_eq_some h

/-- **Behind an operation that meets its condition the RTC is armed.** -/
theorem step_good (hp : ∀ t, precision t = t) (hb : Base s.alarms s.current) (hset : IsSet s) {s' : State} {o : Op}
    (hm : Meets s o) (hs : s.step precision o = some s') : Good (daysecAt s'.clock) s' := by
  obtain ⟨act, t₁, t₂⟩ := o
  unfold State.step at hs
  split_ifs at hs with hclock
  obtain ⟨s₁, hact, rfl⟩ := Option.map_eq_some_iff.1 hs
  have hgood : Good (daysecAt t₂) s₁ := by
    cases act with
    | create p callback flag wktime =>
      simp only [State.act] at hact
      split_ifs at hact with hnew
      cases hact
      exact create_ok hb hset hnew hm
    | start p =>
      obtain ⟨a, ha, rfl⟩ := Option.map_eq_some_iff.1 hact
      exact start_ok hp hb hset (find_mem ha) (hm a ha)
    | stop p =>
      obtain ⟨a, ha, rfl⟩ := Option.map_eq_some_iff.1 hact
      exact (stop_ok hp hb hset (find_mem ha) (hm a ha)).1
    | delete p =>
      obtain ⟨a, ha, rfl⟩ := Option.map_eq_some_iff.1 hact
      exact delete_ok hp hb hset (find_mem ha) (hm a ha)
    | control p cmd flag wktime =>
      obtain ⟨a, ha, rfl⟩ := Option.map_eq_some_iff.1 hact
      refine control_ok (o := ⟨.control p cmd flag wktime, t₁, t₂⟩) hp hb hset (find_mem ha) ?_
      simp only [Meets] at hm
      split_ifs at hm ⊢ with hcmd
      · exact hm a ha
      · exact hm
    | event =>
      cases hact
      refine rearm hp hb (fun c hc hcur hst => ?_) hm
      obtain ⟨c', hc', hcur', -, hw⟩ := hset c hc hst
      rw [← hb.eq hc' hc (Option.some.inj (hcur'.symm.trans hcur))]
      exact hw
  exact ⟨hgood.base, hgood.set, hgood.stays⟩

theorem Good.armed (h : Good (daysecAt s.clock) s) : Armed s := by
  rintro ⟨a, ha, hst⟩
  obtain ⟨c, hc, hcur, hcs, hw⟩ := h.set a ha hst
  rw [hw]
  exact ⟨rfl, c, hc, hcs, rfl, h.stays c hc hcur hcs⟩

/-- **The RTC is armed for the next alarm**, in every run whose operations meet their conditions, of a device that
keeps the times that it is given. -/
theorem alarm_armed (precision : Hms → Hms) (hp : ∀ t, precision t = t) {s : State} (h : Runs precision Meets s) :
    Armed s := by
  have hgood : Good (daysecAt s.clock) s := by
    refine Run.Reach.inv (I := fun s => Good (daysecAt s.clock) s) ?_ ?_ h
    · rintro s ⟨hms, clock, rfl⟩
      have hnil : ∀ P : Alarm → Prop, ∀ a ∈ ([] : List Alarm), P a := fun P => List.forall_mem_nil P
      exact ⟨⟨List.nodup_nil, hnil _, hnil _, nofun⟩, hnil _, hnil _⟩
    · exact fun s o s' hg hm hs => step_good hp hg.base hg.set hm hs
  exact hgood.armed

/-- A time of the first of January 1970. -/
def firstDay (hour min : ℤ) : Tm :=
  { tmSec := 0, tmMin := min, tmHour := hour, tmMday := 1, tmMon := 0, tmYear := 70, tmWday := 4 }

/-- A one-shot alarm at 9:30 goes off, and the RTC is set to the daily alarm at 10:00. -/
theorem alarm_armed_twice : ∃ s : State, s.wkalarm = ⟨true, ⟨0, 0, 10⟩⟩ ∧ Armed s := by
  obtain ⟨s, hr, h⟩ := Run.Reach.exec_ok (fun (s : State) o => s.step id o) Meets
    (show State.Init ⟨[], none, ⟨false, ⟨0, 0, 0⟩⟩, [], 32000⟩ from ⟨_, _, rfl⟩)
    [⟨.create 1 true rtAlarmDaily (firstDay 10 0), 32100, 32100⟩, ⟨.create 2 true rtAlarmOneshot (firstDay 9 30), 32100, 32100⟩,
      ⟨.start 1, 32400, 32400⟩, ⟨.start 2, 32401, 32401⟩, ⟨.event, 34200, 34200⟩]
    (fun s => decide (s.wkalarm = ⟨true, ⟨0, 0, 10⟩⟩)) (by decide)
  exact ⟨s, of_decide_eq_true h, alarm_armed id (fun _ => rfl) hr⟩

/-- **An alarm is started and never comes**: a one-shot alarm at 10:00 has gone off, and is still the current one
when on the next day at 9:00 a daily alarm is started for 11:00. -/
theorem alarm_unarmed : ∃ s : State, Runs id Run.Any s ∧ ¬Armed s := by
  obtain ⟨s, hr, h⟩ := Run.Reach.exec_ok (fun (s : State) o => s.step id o) Run.Any
    (show State.Init ⟨[], none, ⟨false, ⟨0, 0, 0⟩⟩, [], 32000⟩ from ⟨_, _, rfl⟩)
    [⟨.create 1 true rtAlarmOneshot (firstDay 10 0), 32100, 32100⟩, ⟨.start 1, 32400, 32400⟩, ⟨.event, 36000, 36000⟩,
      ⟨.create 2 true rtAlarmDaily (firstDay 11 0), 118800, 118800⟩, ⟨.start 2, 118800, 118800⟩]
    (fun s => s.alarms.any Alarm.started && !s.wkalarm.enable) (by decide)
  rw [Bool.and_eq_true, List.any_eq_true, Bool.not_eq_true'] at h
  obtain ⟨hst, hoff⟩ := h
  refine ⟨s, hr, fun harmed => ?_⟩
  rw [(harmed hst).1] at hoff
  cases hoff

end RtThread.Rtc
