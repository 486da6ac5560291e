import RtThread.Spec.TimerSkip
import RtThread.Proof.TimerOrder

/-!
# Timers in several rows

* `rtTimerStart_ok`: `rt_timer_start` finds its place in every row, and what it leaves behind.
* `rows_kept`: **the rows stay a skip list** in every run, whatever the callbacks do, sorted or not.
* `start_alike`: among timers within half the range of a tick the last row is what one row would be. The search begins
  in the sparse rows, but all that it skips in the last row expires before what it has seen (`insert_last`).
* `skip_refines`: **a run with several rows is a run with one**, with the same calls of the same timers.
-/

namespace RtThread.Timer

open SkipList Timers

variable {T : Type*} [DecidableEq T] {usingSoft : Bool} {mask : BitVec 32} {s s' : SkipTimers T} {S : Timers T}
  {t x : T} {rows : List (List T)}

/-! ## Starting a timer -/

/-- Out of all rows. -/
def without (t : T) (rows : List (List T)) : List (List T) := rows.map fun row => row.filter (· ≠ t)

theorem nested_without (h : Nested rows) : Nested (without t rows) := h.filter _

theorem not_mem_without : ∀ row ∈ without t rows, t ∉ row := by
  intro row hr ht
  obtain ⟨r, -, rfl⟩ := List.mem_map.1 hr
  simpa using (List.mem_filter.1 ht).2

theorem getLast?_without : (without t rows).getLast? = rows.getLast?.map fun row => row.filter (· ≠ t) :=
  List.getLast?_map

/-- The timers that `rt_timer_start` leaves. -/
def startedTimer (s : SkipTimers T) (t : T) : T → RtTimer :=
  Function.update s.timer t { s.timer t with activated := true, timeoutTick := s.tick + (s.timer t).initTick }

/-- What `rt_timer_start` compares. -/
def startPasses (s : SkipTimers T) (t x : T) : Bool :=
  !({ s.flat with timer := startedTimer s t } : Timers T).expiresAfter t x

/-- **`rt_timer_start`** takes the timer out of its rows and puts it into those of its list, at the places that a search
leaves; it fails for too many ticks, and would if the search got lost. -/
theorem rtTimerStart_eq_link (s : SkipTimers T) (t : T) : s.rtTimerStart usingSoft mask t =
    if (s.timer t).initTick < rtTickMax / 2 then
      if usingSoft && (s.timer t).softTimer then
        ((search (startPasses s t) none (without t s.softRows)).map fun heads =>
          ⟨startedTimer s t, without t s.hardRows,
            insertRows t (rowsAbove mask ((without t s.softRows).length - 1) (s.randomNr + 1) + 1) heads
              (without t s.softRows), s.tick, s.randomNr + 1⟩)
      else
        ((search (startPasses s t) none (without t s.hardRows)).map fun heads =>
          ⟨startedTimer s t,
            insertRows t (rowsAbove mask ((without t s.hardRows).length - 1) (s.randomNr + 1) + 1) heads
              (without t s.hardRows), without t s.softRows, s.tick, s.randomNr + 1⟩)
    else none := by
  set s₁ := ((s.remove t).setActivated t false).modify t
    fun x => { x with timeoutTick := ((s.remove t).setActivated t false).tick + x.initTick } with hs₁
  have hsame : ((s.remove t).setActivated t false).timer t = { s.timer t with activated := false } := by
    simp [SkipTimers.setActivated, SkipTimers.modify, SkipTimers.remove]
  have hsoft : (s₁.timer t).softTimer = (s.timer t).softTimer := by
    simp [hs₁, SkipTimers.setActivated, SkipTimers.modify, SkipTimers.remove]
  have htimer : Function.update s₁.timer t { s₁.timer t with activated := true } = startedTimer s t := by
    simp [hs₁, startedTimer, SkipTimers.setActivated, SkipTimers.modify, SkipTimers.remove]
  have hpasses : s₁.passes t = startPasses s t := by
    funext x
    unfold SkipTimers.passes startPasses
    congr 1
    refine congrFun (expiresAfter_congr fun y => ?_) x
    by_cases hy : y = t
    · subst hy
      simp [SkipTimers.flat, hs₁, startedTimer, SkipTimers.setActivated, SkipTimers.modify, SkipTimers.remove]
    · simp [SkipTimers.flat, hs₁, startedTimer, SkipTimers.setActivated, SkipTimers.modify, SkipTimers.remove, hy]
  unfold SkipTimers.rtTimerStart
  simp only [hsame]
  by_cases hi : (s.timer t).initTick < rtTickMax / 2
  · rw [if_pos hi, if_pos hi, ← hs₁]
    unfold SkipTimers.link
    rw [hsoft]
    by_cases hu : (usingSoft && (s.timer t).softTimer) = true
    · rw [if_pos hu, if_pos hu, SkipTimers.linkRows, hpasses, Option.map_map, Option.map_map]
      refine congrArg (fun f => Option.map f _) (funext fun heads => ?_)
      simp only [Function.comp, SkipTimers.setActivated, SkipTimers.modify, htimer]
      rfl
    · rw [if_neg hu, if_neg hu, SkipTimers.linkRows, hpasses, Option.map_map, Option.map_map]
      refine congrArg (fun f => Option.map f _) (funext fun heads => ?_)
      simp only [Function.comp, SkipTimers.setActivated, SkipTimers.modify, htimer]
      rfl
  · rw [if_neg hi, if_neg hi]

/-- What `rt_timer_start` leaves. -/
structure Started (usingSoft : Bool) (s : SkipTimers T) (t : T) (s' : SkipTimers T) : Prop where
  hard : Nested s'.hardRows
  soft : Nested s'.softRows
  timer : s'.timer = startedTimer s t
  tick : s'.tick = s.tick
  last : if usingSoft && (s.timer t).softTimer then s'.hardRows = without t s.hardRows
    else LastCut (startPasses s t) t (without t s.hardRows) s'.hardRows

/-- **`rt_timer_start`** finds its places and keeps the rows nested. -/
theorem rtTimerStart_ok (hh : Nested s.hardRows) (hs : Nested s.softRows)
    (hi : (s.timer t).initTick < rtTickMax / 2) :
    ∃ s', s.rtTimerStart usingSoft mask t = some s' ∧ Started usingSoft s t s' := by
  rw [rtTimerStart_eq_link, if_pos hi]
  by_cases hu : (usingSoft && (s.timer t).softTimer) = true
  · obtain ⟨heads, hsearch, hnew, -, -⟩ := (nested_without hs).insert (startPasses s t) not_mem_without
      (rowsAbove mask ((without t s.softRows).length - 1) (s.randomNr + 1) + 1)
    rw [if_pos hu, hsearch]
    exact ⟨_, rfl, nested_without hh, hnew, rfl, rfl, by rw [if_pos hu]⟩
  · obtain ⟨heads, hsearch, hnew, -, hcut⟩ := (nested_without hh).insert (startPasses s t) not_mem_without
      (rowsAbove mask ((without t s.hardRows).length - 1) (s.randomNr + 1) + 1)
    rw [if_neg hu, hsearch]
    exact ⟨_, rfl, hnew, nested_without hs, rfl, rfl, by rw [if_neg hu]; exact hcut (Nat.succ_pos _)⟩

theorem started_of_start (hh : Nested s.hardRows) (hs : Nested s.softRows)
    (h : s.rtTimerStart usingSoft mask t = some s') :
    (s.timer t).initTick < rtTickMax / 2 ∧ Started usingSoft s t s' := by
  by_cases hi : (s.timer t).initTick < rtTickMax / 2
  · obtain ⟨s'', h'', hok⟩ := rtTimerStart_ok hh hs hi
    rw [h] at h''
    exact ⟨hi, Option.some.inj h'' ▸ hok⟩
  · rw [rtTimerStart_eq_link, if_neg hi] at h
    cases h

/-! ## Every run -/

/-- Both lists. -/
def RowsOk (s : SkipTimers T) : Prop := Nested s.hardRows ∧ Nested s.softRows

omit [DecidableEq T] in
theorem RowsOk.of_rows (h : RowsOk s) (hh : s'.hardRows = s.hardRows) (hs : s'.softRows = s.softRows) : RowsOk s' := by
  unfold RowsOk
  rw [hh, hs]
  exact h

theorem RowsOk.remove (h : RowsOk s) : RowsOk (s.remove t) := ⟨nested_without h.1, nested_without h.2⟩

theorem RowsOk.start (h : RowsOk s) (hst : s.rtTimerStart usingSoft mask t = some s') : RowsOk s' := by
  obtain ⟨-, hok⟩ := started_of_start h.1 h.2 hst
  exact ⟨hok.hard, hok.soft⟩

theorem RowsOk.stop (h : RowsOk s) : RowsOk (s.rtTimerStop t) := by
  unfold SkipTimers.rtTimerStop
  split
  · exact h
  · exact h.remove.of_rows rfl rfl

theorem RowsOk.callback (h : RowsOk s) (hst : s.afterCallback usingSoft mask t = some s') : RowsOk s' := by
  unfold SkipTimers.afterCallback at hst
  split at hst
  · have h' : RowsOk (s.setActivated t false) := h.of_rows rfl rfl
    exact h'.start hst
  · obtain rfl := Option.some.inj hst
    exact h.of_rows rfl rfl

theorem RowsOk.step {k k' : SkipSys T} {a : Act T} (h : RowsOk k.timers) (hst : SkipStep usingSoft mask k a k') :
    RowsOk k'.timers := by
  cases hst with
  | start _ hs => exact h.start hs
  | stop _ => exact h.stop
  | @control t c _ => cases c <;> exact h.of_rows rfl rfl
  | tick => exact h.of_rows rfl rfl
  | check => exact h
  | call _ _ _ => exact h.remove
  | ret _ hs => exact h.callback hs
  | leave => exact h

omit [DecidableEq T] in
theorem RowsOk.init {k : SkipSys T} (h : SkipInit k) : RowsOk k.timers := by
  obtain ⟨-, ⟨n, hh, hs⟩, -⟩ := h
  unfold RowsOk
  rw [hh, hs]
  exact ⟨nested_replicate _, nested_replicate _⟩

/-- Two timers and three rows. -/
def threeRows : SkipSys Bool :=
  ⟨⟨fun t => rtTimerInit (if t then 3 else 5) false false, [[], [], []], [[], [], []], 0, 0⟩, .idle⟩

theorem threeRows_init : SkipInit threeRows :=
  ⟨fun _ => ⟨_, _, _, rfl⟩, ⟨2, rfl, rfl⟩, rfl⟩

/-- The timer that expires first is started second, and in two rows. -/
theorem threeRows_starts : ((threeRows.timers.rtTimerStart true 1 false).bind fun s => s.rtTimerStart true 1 true).map
    (·.hardRows) = some [[], [true], [true, false]] := by decide

/-- The timers are those of a system with one row. -/
structure AlikeTimers (s : SkipTimers T) (S : Timers T) : Prop where
  timer : S.timer = s.timer
  list : s.hardRows.getLast? = some S.hardList
  tick : S.tick = s.tick

omit [DecidableEq T] in
theorem Alike.timers {k : SkipSys T} {K : Sys T} (h : Alike k K) : AlikeTimers k.timers K.timers :=
  ⟨h.timer, h.list, h.tick⟩

theorem AlikeTimers.started (h : AlikeTimers s S) :
    (S.afterStart usingSoft t).timer = startedTimer s t := by
  funext x
  unfold startedTimer
  by_cases hx : x = t
  · subst hx
    rw [afterStart_timer_same, Function.update_self, h.timer, h.tick]
  · rw [afterStart_timer_ne hx, Function.update_of_ne hx, h.timer]

theorem AlikeTimers.getLast?_without (h : AlikeTimers s S) :
    (without t s.hardRows).getLast? = some (S.hardList.filter (· ≠ t)) := by
  rw [Timer.getLast?_without, h.list, Option.map_some]

/-- **`rt_timer_start` with several rows is `rt_timer_start` with one.** -/
theorem start_alike {lo : ℤ} (h : AlikeTimers s S) (hw : Spread usingSoft S lo) (hlo : -1 ≤ lo)
    (hi : (s.timer t).initTick < rtTickMax / 2) (hs : Started usingSoft s t s') :
    AlikeTimers s' (S.afterStart usingSoft t) := by
  have htimer : (S.afterStart usingSoft t).timer = startedTimer s t := h.started
  have hi' : (S.timer t).initTick < rtTickMax / 2 := by rw [h.timer]; exact hi
  refine ⟨htimer.trans hs.timer.symm, ?_, afterStart_tick.trans (h.tick.trans hs.tick.symm)⟩
  have hlast := hs.last
  rw [afterStart_hardList, h.timer]
  by_cases hu : (usingSoft && (s.timer t).softTimer) = true
  · rw [if_pos hu] at hlast ⊢
    rw [hlast, h.getLast?_without]
  · rw [if_neg hu] at hlast ⊢
    have hpasses : (fun x => !startPasses s t x) = (S.afterStart usingSoft t).expiresAfter t := by
      funext x
      unfold startPasses
      rw [Bool.not_not]
      exact congrFun (expiresAfter_congr fun y => by rw [htimer]) x
    -- what expires later than a timer that the search passes not is not passed either
    have hsorted : (S.hardList.filter (· ≠ t)).Pairwise fun y z =>
        startPasses s t z = true → startPasses s t y = true := by
      refine (hw.sorted.sublist List.filter_sublist).imp_of_mem fun {y z} hy hz hyz hpass => ?_
      have hiff : ∀ x, startPasses s t x = true ↔ (S.afterStart usingSoft t).expiresAfter t x = false := by
        intro x
        rw [← congrFun hpasses x, Bool.not_eq_false']
      rw [hiff, Bool.eq_false_iff, ne_eq, hw.passes_iff hlo hi' hz] at hpass
      rw [hiff, Bool.eq_false_iff, ne_eq, hw.passes_iff hlo hi' hy]
      rw [afterStart_offset_ne (mem_filter_ne hz).2] at hpass
      rw [afterStart_offset_ne (mem_filter_ne hy).2]
      omega
    rw [insert_last hlast h.getLast?_without hsorted, hpasses]

/-! ## Runs with one row -/

variable {k k₁ k₂ k' : SkipSys T} {K : Sys T} {fired : List T} {op : Op T}

omit [DecidableEq T] in
theorem AlikeTimers.due (h : AlikeTimers s S) (ct : Tick) (t : T) : S.due ct t = s.flat.due ct t := by
  unfold Timers.due
  rw [h.timer]
  rfl

omit [DecidableEq T] in
theorem AlikeTimers.restarts (h : AlikeTimers s S) (t : T) : S.restarts t = s.flat.restarts t := by
  unfold Timers.restarts
  rw [h.timer]
  rfl

theorem AlikeTimers.remove (h : AlikeTimers s S) : AlikeTimers (s.remove t) (S.remove t) :=
  ⟨h.timer, h.getLast?_without, h.tick⟩

theorem AlikeTimers.setActivated (h : AlikeTimers s S) (v : Bool) :
    AlikeTimers (s.setActivated t v) (S.setActivated t v) := by
  refine ⟨?_, h.list, h.tick⟩
  unfold SkipTimers.setActivated SkipTimers.modify Timers.setActivated Timers.modify
  rw [h.timer]

/-- **One turn of the loop** is one with one row. -/
theorem fire_alike (h : Alike k K) (hok : RowsOk k.timers) (hw : Window usingSoft K (-1))
    (h1 : SkipStep usingSoft mask k (.call t) k₁) (h2 : SkipStep usingSoft mask k₁ .ret k₂) :
    ∃ K₁ K₂, Step usingSoft K (.call t) K₁ ∧ Step usingSoft K₁ .ret K₂ ∧ Alike k₂ K₂ ∧ RowsOk k₂.timers := by
  have hok₂ : RowsOk k₂.timers := (hok.step h1).step h2
  cases h1 with
  | @call ct _ l hpc hrow hdue =>
    have hlist : K.timers.hardList = t :: l := Option.some.inj (h.list.symm.trans hrow)
    have hcall : Step usingSoft K (.call t) { K with timers := K.timers.remove t, pc := .calling t } :=
      .call (h.pc.trans hpc) hlist (by rw [h.timers.due]; exact hdue)
    have hrem : AlikeTimers (k.timers.remove t) (K.timers.remove t) := h.timers.remove
    have hact : AlikeTimers ((k.timers.remove t).setActivated t false) ((K.timers.remove t).setActivated t false) :=
      hrem.setActivated false
    cases h2 with
    | @ret t' s' hpc₁ ha =>
      obtain rfl := Pc.calling.inj hpc₁
      have hS : ∃ S', (K.timers.remove t).afterCallback usingSoft t = some S' ∧ AlikeTimers s' S' := by
        rw [afterCallback_eq, hrem.restarts]
        unfold SkipTimers.afterCallback at ha
        split at ha
        · rename_i hr
          rw [if_pos hr]
          have hrows : RowsOk ((k.timers.remove t).setActivated t false) := hok.remove.of_rows rfl rfl
          obtain ⟨hi, hst⟩ := started_of_start hrows.1 hrows.2 ha
          have hi' : ((K.timers.remove t).timer t).initTick < rtTickMax / 2 := by
            rw [← hact.timer, setActivated_same] at hi
            exact hi
          have hspread : Spread usingSoft ((K.timers.remove t).setActivated t false) (-1) := hw.taken.spread
          rw [if_pos hi']
          exact ⟨_, rfl, start_alike hact hspread (le_refl _) hi hst⟩
        · rename_i hr
          rw [if_neg hr]
          obtain rfl := Option.some.inj ha
          exact ⟨_, rfl, hact⟩
      obtain ⟨S', hS', halike⟩ := hS
      refine ⟨_, _, hcall, .ret rfl hS', ⟨?_, ?_, ?_, ?_⟩, hok₂⟩
      · rw [returned_timers]
        exact halike.timer
      · rw [returned_timers]
        exact halike.list
      · rw [returned_timers]
        exact halike.tick
      · rw [returned_pc]
        exact congrArg Pc.checking hrem.tick

theorem loop_alike (hloop : SkipLoop usingSoft mask k fired k') (h : Alike k K) (hok : RowsOk k.timers)
    (hw : Window usingSoft K (-1)) (hpc : K.pc = .checking K.timers.tick) :
    ∃ K', Loop usingSoft K fired K' ∧ Alike k' K' := by
  induction hloop generalizing K with
  | done hst =>
    cases hst with
    | @leave ct hpc' hhead =>
      refine ⟨{ K with pc := .idle }, .done (.leave (h.pc.trans hpc') fun t ht => ?_), h.timer, h.list, h.tick, rfl⟩
      rw [h.timers.due]
      exact hhead _ h.list t ht
  | fire h1 h2 _ ih =>
    obtain ⟨K₁, K₂, hc, hr, halike, hok₂⟩ := fire_alike h hok hw h1 h2
    obtain ⟨-, -, -, hw₂, hpc₂, -⟩ := fire_ok hw hpc hc hr
    obtain ⟨K', hl, hK'⟩ := ih halike hok₂ hw₂ hpc₂
    exact ⟨K', .fire hc hr hl, hK'⟩

/-- **One operation** is one with one row. -/
theorem op_alike (h : Alike k K) (hok : RowsOk k.timers) (ha : Ahead usingSoft K)
    (hop : SkipOpStep usingSoft mask k op k') : ∃ K', OpStep usingSoft K op K' ∧ Alike k' K' := by
  cases hop with
  | @start _ t hpc hst =>
    cases hst with
    | start _ hs =>
      obtain ⟨hi, hstarted⟩ := started_of_start hok.1 hok.2 hs
      have halike := start_alike h.timers ha.window.spread (by omega) hi hstarted
      refine ⟨K.started t (K.timers.afterStart usingSoft t), .start ha.pc (.start (by rw [ha.pc]; trivial) ?_),
        halike.timer, halike.list, halike.tick, h.pc⟩
      rw [rtTimerStart_eq, h.timer, if_pos hi]
  | @stop _ t hpc hst =>
    cases hst with
    | stop _ =>
      refine ⟨_, .stop ha.pc (.stop (by rw [ha.pc]; trivial)), ?_⟩
      have halike : AlikeTimers (k.timers.rtTimerStop t) (K.timers.rtTimerStop t).2 := by
        rw [rtTimerStop_ok, h.timer]
        unfold SkipTimers.rtTimerStop
        split
        · exact h.timers
        · exact h.timers.remove.setActivated false
      exact ⟨halike.timer, halike.list, halike.tick, h.pc⟩
  | tick hst hloop =>
    cases hst with
    | tick hpc =>
      have halike : Alike { timers := { k.timers with tick := k.timers.tick + 1 }, pc := .checking (k.timers.tick + 1) }
          { K with timers := { K.timers with tick := K.timers.tick + 1 }, pc := .checking (K.timers.tick + 1) } :=
        ⟨h.timer, h.list, congrArg (· + 1) h.tick, congrArg (fun n => Pc.checking (n + 1)) h.tick⟩
      obtain ⟨K', hl, hK'⟩ := loop_alike hloop halike (hok.of_rows rfl rfl) (ha.window.tick _).1 rfl
      exact ⟨K', .tick (.tick ha.pc) hl, hK'⟩

theorem RowsOk.loop (h : RowsOk k.timers) (hloop : SkipLoop usingSoft mask k fired k') : RowsOk k'.timers := by
  induction hloop with
  | done hst => exact h.step hst
  | fire h1 h2 _ ih => exact ih ((h.step h1).step h2)

theorem RowsOk.opStep (h : RowsOk k.timers) (hop : SkipOpStep usingSoft mask k op k') : RowsOk k'.timers := by
  cases hop with
  | start _ hst => exact h.step hst
  | stop _ hst => exact h.step hst
  | tick hst hloop => exact (h.step hst).loop hloop

/-- The system with one row that starts with the same timers. -/
def flatInit (k : SkipSys T) : Sys T :=
  { timers := k.timers.flat, pc := k.pc, startTick := fun _ => 0, turn := fun _ => 0, starts := 0 }

omit [DecidableEq T] in
theorem flatInit_ok (h : SkipInit k) : Init (flatInit k) ∧ Alike k (flatInit k) := by
  obtain ⟨hinit, ⟨n, hh, hs⟩, hpc⟩ := h
  have hlast : (List.replicate (n + 1) ([] : List T)).getLast? = some [] := by
    rw [List.getLast?_replicate, if_neg (Nat.succ_ne_zero n)]
  have hard : (flatInit k).timers.hardList = [] := by
    change k.timers.hardRows.getLast?.getD [] = []
    rw [hh, hlast, Option.getD_some]
  have soft : (flatInit k).timers.softList = [] := by
    change k.timers.softRows.getLast?.getD [] = []
    rw [hs, hlast, Option.getD_some]
  refine ⟨⟨hinit, hard, soft, hpc⟩, rfl, ?_, rfl, rfl⟩
  rw [hard, hh, hlast]

/-- What a run with several rows keeps: there is a run with one row that has come as far. -/
def Followed (usingSoft : Bool) (k : SkipSys T) (ops : List (Op T)) : Prop :=
  RowsOk k.timers ∧ ∃ K, Alike k K ∧ Ahead usingSoft K ∧
    Run.Reach (fun p => Init p.1 ∧ p.2 = []) (Run.Logged (OpStep usingSoft) logOp) Run.Any (K, ops)

theorem Followed.init (h : SkipInit k) : Followed usingSoft k [] := by
  obtain ⟨hinit, halike⟩ := flatInit_ok h
  exact ⟨RowsOk.init h, flatInit k, halike, Ahead.init hinit, .init ⟨hinit, rfl⟩⟩

theorem Followed.step {ops : List (Op T)} (h : Followed usingSoft k ops) (hop : SkipOpStep usingSoft mask k op k') :
    Followed usingSoft k' (ops ++ [op]) := by
  obtain ⟨hok, K, halike, hahead, hK⟩ := h
  obtain ⟨K', hop', halike'⟩ := op_alike halike hok hahead hop
  exact ⟨hok.opStep hop, K', halike', hahead.step hop', .step hK trivial ⟨hop', rfl⟩⟩

/-- **A run with several rows is a run with one**: the same calls in the same order, at the same ticks; and every row is
sorted by the ticks left. -/
theorem skip_refines {ops : List (Op T)}
    (h : Run.Reach (fun p => SkipInit p.1 ∧ p.2 = []) (Run.Logged (SkipOpStep usingSoft mask) logOp) Run.Any (k, ops)) :
    ∃ K, Run.Reach (fun p => Init p.1 ∧ p.2 = []) (Run.Logged (OpStep usingSoft) logOp) Run.Any (K, ops) ∧ Alike k K ∧
      ∀ row ∈ k.timers.hardRows, row.Pairwise fun a b =>
        ((k.timers.timer a).timeoutTick - k.timers.tick).toNat ≤
          ((k.timers.timer b).timeoutTick - k.timers.tick).toNat := by
  have hinv : Followed usingSoft k ops := by
    refine Run.Reach.inv (I := fun p : SkipSys T × List (Op T) => Followed usingSoft p.1 p.2) (fun p hp => ?_)
      (fun p op p' hI _ hst => ?_) h
    · rw [hp.2]
      exact Followed.init hp.1
    · rw [hst.2]
      exact hI.step hst.1
  obtain ⟨hok, K, halike, hahead, hK⟩ := hinv
  refine ⟨K, hK, halike, fun row hrow => ?_⟩
  have hw : Spread usingSoft K.timers 0 := hahead.window.spread
  have hlast : K.timers.hardList.Pairwise fun a b =>
      ((k.timers.timer a).timeoutTick - k.timers.tick).toNat ≤
        ((k.timers.timer b).timeoutTick - k.timers.tick).toNat := by
    rw [← halike.timer, ← halike.tick]
    refine hw.sorted.imp_of_mem fun {a b} ha hb hab => ?_
    have h1 := toNat_of_nonneg (hw.bound a ha).1
    have h2 := toNat_of_nonneg (hw.bound b hb).1
    unfold Timers.offset at hab
    omega
  exact hlast.sublist (sublist_last hok.1.chain hrow halike.list)

theorem skip_refines_two : ∃ (k : SkipSys Bool) (K : Sys Bool), k.timers.hardRows = [[], [true], [true, false]] ∧
    Run.Reach (fun p => Init p.1 ∧ p.2 = []) (Run.Logged (OpStep true) logOp) Run.Any (K, [.start false, .start true]) ∧
    Alike k K ∧ ∀ row ∈ k.timers.hardRows, row.Pairwise fun a b =>
      ((k.timers.timer a).timeoutTick - k.timers.tick).toNat ≤
        ((k.timers.timer b).timeoutTick - k.timers.tick).toNat := by
  obtain ⟨s₂, h₂, hrows⟩ := Option.map_eq_some_iff.1 threeRows_starts
  obtain ⟨s₁, h₁, h₂⟩ := Option.bind_eq_some_iff.1 h₂
  have hfirst : SkipOpStep true 1 threeRows (.start false) ⟨s₁, Pc.idle⟩ := .start rfl (.start trivial h₁)
  have hsecond : SkipOpStep true 1 ⟨s₁, Pc.idle⟩ (.start true) ⟨s₂, Pc.idle⟩ := .start rfl (.start trivial h₂)
  have hone : Run.Reach (fun p => SkipInit p.1 ∧ p.2 = []) (Run.Logged (SkipOpStep true 1) logOp) Run.Any
      ((⟨s₁, Pc.idle⟩ : SkipSys Bool), [.start false]) :=
    .step (.init (s := (threeRows, [])) ⟨threeRows_init, rfl⟩) trivial ⟨hfirst, rfl⟩
  have hrun : Run.Reach (fun p => SkipInit p.1 ∧ p.2 = []) (Run.Logged (SkipOpStep true 1) logOp) Run.Any
      ((⟨s₂, Pc.idle⟩ : SkipSys Bool), [.start false, .start true]) :=
    .step hone trivial ⟨hsecond, rfl⟩
  obtain ⟨K, hK⟩ := skip_refines hrun
  exact ⟨_, K, hrows, hK⟩

end RtThread.Timer
