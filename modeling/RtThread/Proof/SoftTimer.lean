import RtThread.Proof.TimerState
import RtThread.Spec.SoftTimer

/-!
# The scan of the soft timers respects stops

`SoftOK`: the saved node is linked in the soft timer list, or its head, and a stopped timer is
neither linked nor marked.

* `soft_stop`: the scan respects stops in every run in which nobody stops the active timer whose
  node it has saved.
* `soft_stop_saved`: a callback stops the next timer, whose node then points to itself, and the scan
  calls it.
-/

namespace RtThread.Timer

open Timers

variable {T : Type*} [DecidableEq T] {s s' : Timers T} {t x : T}

/-! ## The lists -/

namespace Timers

/-- A list holds timers of its own kind. -/
structure Kinds (s : Timers T) : Prop where
  nodup : s.softList.Nodup
  soft : ∀ t ∈ s.softList, (s.timer t).softTimer = true
  hard : ∀ t ∈ s.hardList, (s.timer t).softTimer = false

/-- What keeps a saved node: the lists stay right, and soft timers stay linked. -/
structure Keeps (s s' : Timers T) : Prop where
  kinds : s'.Kinds
  soft : ∀ t ∈ s.softList, t ∈ s'.softList

omit [DecidableEq T] in
theorem link_softList {usingSoft : Bool} : (s.link usingSoft t).softList =
    if usingSoft && (s.timer t).softTimer then Queue.insertBefore (s.expiresAfter t) t s.softList
    else s.softList := by
  unfold link
  split <;> rfl

theorem afterStart_softTimer : ((s.afterStart true t).timer x).softTimer = (s.timer x).softTimer := by
  by_cases hx : x = t
  · rw [hx, afterStart_timer_same]
  · rw [afterStart_timer_ne hx]

theorem mem_afterStart_hardList : x ∈ (s.afterStart true t).hardList ↔
    (x = t ∧ (s.timer t).softTimer = false) ∨ (x ≠ t ∧ x ∈ s.hardList) := by
  rw [afterStart_hardList, Bool.true_and]
  cases (s.timer t).softTimer <;> simp <;> tauto

/-- `rt_timer_start` links a soft timer in the soft list. -/
theorem afterStart_softList : ∃ p, (s.afterStart true t).softList =
    if (s.timer t).softTimer = true then Queue.insertBefore p t (s.softList.filter (· ≠ t))
    else s.softList.filter (· ≠ t) := by
  refine ⟨(((s.remove t).setActivated t false).modify t fun x =>
    { x with timeoutTick := s.tick + x.initTick }).expiresAfter t, ?_⟩
  unfold afterStart
  change ((((s.remove t).setActivated t false).modify t fun x =>
    { x with timeoutTick := s.tick + x.initTick }).link true t).softList = _
  rw [link_softList, modify_same, setActivated_same, Bool.true_and]
  rfl

theorem mem_afterStart_softList : x ∈ (s.afterStart true t).softList ↔
    (x = t ∧ (s.timer t).softTimer = true) ∨ (x ≠ t ∧ x ∈ s.softList) := by
  obtain ⟨p, hp⟩ := afterStart_softList (s := s) (t := t)
  rw [hp]
  cases (s.timer t).softTimer <;> simp <;> tauto

theorem Kinds.start (h : s.Kinds) : s.Keeps (s.afterStart true t) := by
  refine ⟨⟨?_, fun x hx => ?_, fun x hx => ?_⟩, fun x hx => ?_⟩
  · obtain ⟨p, hp⟩ := afterStart_softList (s := s) (t := t)
    have hnd : (s.softList.filter (· ≠ t)).Nodup := h.nodup.filter _
    rw [hp]
    split
    · rw [(Queue.perm_insertBefore _ _ _).nodup_iff]
      exact List.nodup_cons.2 ⟨by simp, hnd⟩
    · exact hnd
  · rw [afterStart_softTimer]
    rcases mem_afterStart_softList.1 hx with ⟨rfl, hs⟩ | ⟨-, hm⟩
    · exact hs
    · exact h.soft x hm
  · rw [afterStart_softTimer]
    rcases mem_afterStart_hardList.1 hx with ⟨rfl, hs⟩ | ⟨-, hm⟩
    · exact hs
    · exact h.hard x hm
  · rw [mem_afterStart_softList]
    by_cases hxt : x = t
    · exact .inl ⟨hxt, hxt ▸ h.soft x hx⟩
    · exact .inr ⟨hxt, hx⟩

theorem Kinds.remove (h : s.Kinds) : (s.remove t).Kinds :=
  ⟨h.nodup.filter _, fun x hx => h.soft x (List.mem_filter.1 hx).1,
    fun x hx => h.hard x (List.mem_filter.1 hx).1⟩

theorem mem_remove_softList : x ∈ (s.remove t).softList ↔ x ∈ s.softList ∧ x ≠ t := by
  unfold Timers.remove
  rw [List.mem_filter]
  simp

theorem Kinds.setActivated (h : s.Kinds) (v : Bool) : s.Keeps (s.setActivated t v) := by
  have hsoft : ∀ x, ((s.setActivated t v).timer x).softTimer = (s.timer x).softTimer := by
    intro x
    by_cases hx : x = t
    · rw [hx, setActivated_same]
    · rw [setActivated_ne hx]
  exact ⟨⟨h.nodup, fun x hx => (hsoft x).trans (h.soft x hx), fun x hx => (hsoft x).trans (h.hard x hx)⟩,
    fun _ hx => hx⟩

theorem Kinds.control (h : s.Kinds) (c : Ctrl) : s.Keeps (s.rtTimerControl t c).2 := by
  have hsoft : ∀ x, ((s.rtTimerControl t c).2.timer x).softTimer = (s.timer x).softTimer := by
    intro x
    cases c <;> by_cases hx : x = t <;> simp [rtTimerControl, modify, hx]
  obtain ⟨hhard, hlist, -⟩ := rtTimerControl_ok (s := s) (t := t) c
  refine ⟨⟨hlist ▸ h.nodup, fun x hx => ?_, fun x hx => ?_⟩, fun x hx => hlist ▸ hx⟩
  · exact (hsoft x).trans (h.soft x (hlist ▸ hx))
  · exact (hsoft x).trans (h.hard x (hhard ▸ hx))

/-- The restart after a callback. -/
theorem Kinds.afterCallback (h : s.Kinds) (ha : s.afterCallback true t = some s') : s.Keeps s' := by
  have hset := h.setActivated (t := t) false
  unfold Timers.afterCallback at ha
  split at ha
  · rw [rtTimerStart_eq] at ha
    split at ha
    · cases ha
      have hstart := hset.kinds.start (t := t)
      exact ⟨hstart.kinds, fun x hx => hstart.soft x (hset.soft x hx)⟩
    · cases ha
  · cases ha
    exact hset

/-- A successful stop unlinks the timer. -/
theorem stopped_of_stop (h : (s.rtTimerStop t).1 = true) : (s.rtTimerStop t).2.Stopped t := by
  unfold rtTimerStop at h ⊢
  split at h
  · cases h
  · rename_i hf
    rw [if_neg hf]
    exact ⟨by rw [setActivated_linked, remove_linked]; simp, by rw [setActivated_same]⟩

theorem Kinds.stop (h : s.Kinds) : (s.rtTimerStop t).2.Kinds ∧
    ∀ x ∈ s.softList, (x = t → (s.timer t).activated = false) → x ∈ (s.rtTimerStop t).2.softList := by
  rw [rtTimerStop_ok]
  split
  · exact ⟨h, fun x hx _ => hx⟩
  · rename_i hact
    refine ⟨(h.remove.setActivated false).kinds, fun x hx hne => ?_⟩
    exact mem_remove_softList.2 ⟨hx, fun he => hact (hne he)⟩

end Timers

/-! ## The saved node -/

/-- The node behind a timer of a list is the head or a later timer. -/
theorem nodeAfter_cases {head : Node T} {l : List T} (hnd : l.Nodup) :
    nodeAfter head t l = head ∨ ∃ u ∈ l, u ≠ t ∧ nodeAfter head t l = .timer u := by
  induction l with
  | nil => exact .inl rfl
  | cons y l ih =>
    cases l with
    | nil => exact .inl rfl
    | cons z l =>
      rw [nodeAfter]
      split
      · rename_i hy
        refine .inr ⟨z, by simp, ?_, rfl⟩
        rintro rfl
        exact (List.nodup_cons.1 hnd).1 (hy ▸ List.mem_cons_self)
      · rcases ih (List.nodup_cons.1 hnd).2 with he | ⟨u, hu, hne, he⟩
        · exact .inl he
        · exact .inr ⟨u, List.mem_cons_of_mem _ hu, hne, he⟩

/-- A node in the soft timer list. -/
def Timers.InSoft (s : Timers T) (n : Node T) : Prop := n = .softHead ∨ ∃ t ∈ s.softList, n = .timer t

omit [DecidableEq T] in
theorem Timers.InSoft.mono {n : Node T} (h : s.InSoft n)
    (hl : ∀ t ∈ s.softList, n = .timer t → t ∈ s'.softList) : s'.InSoft n := by
  rcases h with h | ⟨t, ht, rfl⟩
  · exact .inl h
  · exact .inr ⟨t, hl t ht rfl, rfl⟩

/-- The scan's invariant. -/
structure SoftOK (k : Soft T) (stopped : T → Bool) : Prop where
  kinds : k.sys.timers.Kinds
  saved : ∀ n, k.scan.node = some n → k.sys.timers.InSoft n
  stopped : ∀ t, stopped t = true → k.sys.timers.Stopped t

variable {k k' : Soft T} {stopped : T → Bool} {a : SoftAct T}

omit [DecidableEq T] in
theorem SoftOK.init (h : SoftInit k) : SoftOK k fun _ => false := by
  obtain ⟨⟨-, hhard, hsoft, -⟩, hscan⟩ := h
  refine ⟨⟨by rw [hsoft]; exact List.nodup_nil, by rw [hsoft]; nofun, by rw [hhard]; nofun⟩, ?_, nofun⟩
  rw [hscan]
  nofun

omit [DecidableEq T] in
/-- A step that keeps the soft timers linked. -/
theorem SoftOK.keep (h : SoftOK k stopped) {x : Sys T} {g : T → Bool} (hk : k.sys.timers.Keeps x.timers)
    (hs : ∀ t, g t = true → x.timers.Stopped t) : SoftOK { k with sys := x } g :=
  ⟨hk.kinds, fun n hn => (h.saved n hn).mono fun t ht _ => hk.soft t ht, hs⟩

/-- **Everybody else** leaves the saved node linked. -/
theorem SoftOK.env (h : SoftOK k stopped) {a : Act T} {x : Sys T} (hok : NoStopSaved k (.env a))
    (hst : Step true k.sys a x) :
    SoftOK { k with sys := x } (stoppedLog k (.env a) { k with sys := x } stopped) := by
  cases hst with
  | @start t s hc hs =>
    rw [rtTimerStart_eq] at hs
    split at hs
    swap
    · cases hs
    cases hs
    refine h.keep h.kinds.start fun u hu => ?_
    by_cases hut : u = t
    · rw [hut] at hu
      simp [stoppedLog] at hu
    · simp only [stoppedLog, Function.update_of_ne hut] at hu
      exact (h.stopped u hu).start hut
  | @stop t hc =>
    obtain ⟨hk, hsoft⟩ := h.kinds.stop (t := t)
    refine ⟨hk, fun n hn => (h.saved n hn).mono fun u hu hun => ?_, fun u hu => ?_⟩
    · have hn : k.scan.node = some n := hn
      refine hsoft u hu fun hut => hok ?_
      rw [hn, hun, hut]
    · by_cases hret : (k.sys.timers.rtTimerStop t).1 = true
      · by_cases hut : u = t
        · rw [hut]
          exact stopped_of_stop hret
        · simp only [stoppedLog, if_pos hret, Function.update_of_ne hut] at hu
          exact (h.stopped u hu).stop
      · simp only [stoppedLog, if_neg hret] at hu
        exact (h.stopped u hu).stop
  | control hc => exact h.keep (h.kinds.control _) fun u hu => (h.stopped u hu).control _
  | tick hpc => exact ⟨⟨h.kinds.nodup, h.kinds.soft, h.kinds.hard⟩, h.saved, h.stopped⟩
  | check hpc => exact ⟨h.kinds, h.saved, h.stopped⟩
  | @call ct t l hpc hhead hdue =>
    have hhard : (k.sys.timers.timer t).softTimer = false :=
      h.kinds.hard t (by rw [hhead]; exact List.mem_cons_self)
    refine h.keep ⟨h.kinds.remove, fun u hu => mem_remove_softList.2 ⟨hu, ?_⟩⟩ fun u hu => ?_
    · rintro rfl
      rw [h.kinds.soft u hu] at hhard
      cases hhard
    · have hstop := h.stopped u hu
      exact ⟨fun hl => hstop.1 (remove_linked.1 hl).2, hstop.2⟩
  | ret hpc ha =>
    refine h.keep ?_ fun u hu => ?_
    · rw [returned_timers]
      exact h.kinds.afterCallback ha
    · rw [returned_timers]
      exact (h.stopped u hu).afterCallback ha
  | leave => exact ⟨h.kinds, h.saved, h.stopped⟩

/-- **One step** keeps the saved node linked. -/
theorem SoftOK.step (h : SoftOK k stopped) (hok : NoStopSaved k a) (hst : SoftStep k a k') :
    SoftOK k' (stoppedLog k a k' stopped) := by
  cases hst with
  | env hst => exact h.env hok hst
  | enter => exact ⟨h.kinds, nofun, h.stopped⟩
  | first hpc hscan =>
    refine ⟨h.kinds, fun n hn => ?_, h.stopped⟩
    cases hn
    unfold Timers.softFirst Timers.InSoft
    cases hl : k.sys.timers.softList with
    | nil => exact .inl rfl
    | cons t l => exact .inr ⟨t, List.mem_cons_self, rfl⟩
  | @call ct t hpc hscan hdue =>
    -- the saved node is linked, so the node behind it is
    have ht : t ∈ k.sys.timers.softList := by
      rcases h.saved (.timer t) (by rw [hscan]; rfl) with hh | ⟨u, hu, he⟩
      · cases hh
      · cases he
        exact hu
    refine ⟨h.kinds.remove, fun n hn => ?_, fun u hu => ?_⟩
    · cases hn
      rw [Timers.next, if_pos ht]
      rcases nodeAfter_cases (t := t) h.kinds.nodup with hh | ⟨u, hu, hne, he⟩
      · exact .inl hh
      · exact .inr ⟨u, mem_remove_softList.2 ⟨hu, hne⟩, he⟩
    · have hstop := h.stopped u hu
      exact ⟨fun hl => hstop.1 (remove_linked.1 hl).2, hstop.2⟩
  | ret hpc hscan =>
    refine ⟨h.kinds, fun n hn => ?_, h.stopped⟩
    exact h.saved n (by rw [hscan]; exact hn)
  | @resume ct t n s hpc hscan ha =>
    have htimers : (k.sys.resumed t s).timers = s := by
      unfold Sys.resumed
      split <;> rfl
    refine ⟨?_, fun m hm => ?_, fun u hu => ?_⟩
    · rw [htimers]
      exact (h.kinds.afterCallback ha).kinds
    · rw [htimers]
      refine (h.saved m (by rw [hscan]; exact hm)).mono fun u hu _ => ?_
      exact (h.kinds.afterCallback ha).soft u hu
    · rw [htimers]
      exact (h.stopped u hu).afterCallback ha
  | leave => exact ⟨h.kinds, nofun, h.stopped⟩

/-- **The scan respects stops** in every run in which nobody stops the active timer whose node the
scan has saved. -/
theorem soft_stop {p : Soft T × (T → Bool)} (h : SoftReach NoStopSaved p) : RespectsStop p.1 p.2 := by
  have hok : SoftOK p.1 p.2 := by
    refine @Run.Reach.inv_logged _ _ SoftInit SoftStep NoStopSaved _ (fun _ _ => false) stoppedLog SoftOK
      ?_ ?_ p h
    · intro k hk
      exact .init hk
    · intro k g a k' hi ho hst
      exact hi.step ho hst
  have hlinked : ∀ t k', SoftStep p.1 (.call t) k' → t ∈ p.1.sys.timers.softList := by
    intro t k' hcall
    cases hcall with
    | call hpc hscan hdue =>
      rcases hok.saved (.timer t) (by rw [hscan]; rfl) with hh | ⟨u, hu, he⟩
      · cases hh
      · cases he
        exact hu
  refine ⟨hlinked, fun t k' hcall ct n hscan => ?_, fun t k' hcall => ?_⟩
  · cases hcall with
    | call hpc hscan' hdue =>
      rw [hscan'] at hscan
      cases hscan
      exact hdue
  · by_contra hs
    exact (hok.stopped t (by simpa using hs)).1 (.inr (hlinked t k' hcall))

/-! ## A callback that stops the next timer -/

/-- Two one-shot soft timers of 1 tick, just initialised. -/
def pair : Soft Bool where
  sys := ⟨⟨fun _ => rtTimerInit 1 false true, [], [], 0⟩, .idle, fun _ => 0, fun _ => 0, 0⟩
  scan := .idle

/-- Both have been started. -/
def pairStarted : Sys Bool :=
  let k := pair.sys.started false (pair.sys.timers.afterStart true false)
  k.started true (k.timers.afterStart true true)

/-- A tick has passed, and the scan calls the first. -/
def pairCalling : Soft Bool where
  sys := { pairStarted with timers := { pairStarted.timers with tick := 1 }.remove false }
  scan := .calling false (.timer true)

theorem pair_calling (ok : Soft Bool → SoftAct Bool → Prop)
    (hok : ∀ k a, (∀ t, a ≠ .env (.stop t)) → ok k a) : ∃ g, SoftReach ok (pairCalling, g) := by
  have r0 : SoftReach ok (pair, fun _ => false) :=
    .init ⟨⟨⟨fun _ => ⟨1, false, true, rfl⟩, rfl, rfl, rfl⟩, rfl⟩, rfl⟩
  have r1 : SoftReach ok (_, _) := r0.step (hok _ _ (by nofun))
    ⟨.env (.start (t := false) (by trivial) (by rw [rtTimerStart_eq]; rfl)), rfl⟩
  have r2 : SoftReach ok (_, _) := r1.step (hok _ _ (by nofun))
    ⟨.env (.start (t := true) (by trivial) (by rw [rtTimerStart_eq]; rfl)), rfl⟩
  have r3 : SoftReach ok (_, _) := r2.step (hok _ _ (by nofun)) ⟨.env (.tick (by rfl)), rfl⟩
  have r4 : SoftReach ok (_, _) := r3.step (hok _ _ (by nofun)) ⟨.env (.leave (by rfl) (by decide)), rfl⟩
  have r5 : SoftReach ok (_, _) := r4.step (hok _ _ (by nofun)) ⟨.enter (by rfl) (by rfl), rfl⟩
  have r6 : SoftReach ok (_, _) := r5.step (hok _ _ (by nofun)) ⟨.first (by rfl) (by rfl), rfl⟩
  have r7 : SoftReach ok (_, _) :=
    r6.step (hok _ _ (by nofun)) ⟨.call (t := false) (by rfl) (by rfl) (by decide), rfl⟩
  exact ⟨_, r7⟩

/-- The scan calls a timer that is linked and due. -/
theorem soft_stop_pair : ∃ g, RespectsStop pairCalling g := by
  obtain ⟨g, hp⟩ := pair_calling NoStopSaved fun k a ha => by
    cases a with
    | env a =>
      cases a with
      | stop t => exact absurd rfl (ha t)
      | _ => trivial
    | _ => trivial
  exact ⟨g, soft_stop hp⟩

/-- **A stopped timer is called**: the function of the first timer stops the second, whose node the
scan has saved. -/
theorem soft_stop_saved : ¬ ∀ p : Soft Bool × (Bool → Bool), SoftReach Run.Any p →
    RespectsStop p.1 p.2 := by
  intro hall
  obtain ⟨g, r7⟩ := pair_calling Run.Any fun _ _ _ => trivial
  have r8 : SoftReach Run.Any (_, _) :=
    r7.step trivial ⟨.env (.stop (t := true) (by trivial)), rfl⟩
  have r9 : SoftReach Run.Any (_, _) := r8.step trivial ⟨.ret (by rfl) (by rfl), rfl⟩
  have r10 : SoftReach Run.Any (_, _) := r9.step trivial ⟨.resume (by rfl) (by rfl) (by rfl), rfl⟩
  have hdue : (decide ((1#32 : Tick) - 1#32 < rtTickMax / 2)) = true := by decide
  have hlinked : true ∈ ([] : List Bool) := (hall _ r10).linked true _ (.call (by rfl) (by rfl) hdue)
  cases hlinked

end RtThread.Timer
