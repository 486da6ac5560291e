import RtThread.Proof.PrioLists

/-!
# Priority queues deliver in order

* `step_cases`: what a step does.
* `stored_step`, `accounted_step`, `awake_step`: what it keeps.
* `prioQueue_delivers`: **order, delivery and wake-ups** in every run in which `rt_mp_free` finds the threads it counts.
* `prioQueue_loses`: a push that timed out may break the lists.
-/

namespace RtThread.PrioQueue

open Sched

variable {T D : Type} {l₁ l₂ : List (Entry D)} {prio item : ℕ}

/-! ## What a step does -/

variable [DecidableEq T] {stray : Items D → Items D} {s s' : State T D} {g : Log T D} {a : Act T D} {t u : T} {b : ℕ}

@[simp] theorem setCall_queue (p : Call D) : (s.setCall t p).queue = s.queue := rfl

@[simp] theorem setCall_blockList (p : Call D) : (s.setCall t p).blockList = s.blockList := rfl

@[simp] theorem setCall_suspendedPopList (p : Call D) : (s.setCall t p).suspendedPopList = s.suspendedPopList := rfl

@[simp] theorem setCall_self (p : Call D) : (s.setCall t p).call t = p := Function.update_self _ _ _

theorem setCall_ne {p : Call D} (h : u ≠ t) : (s.setCall t p).call u = s.call u := Function.update_of_ne h _ _

/-- The priority that a call pushes with. -/
def Call.pushPrio : Call D → Option ℕ
  | .allocSuspended prio _ _ => some prio
  | .allocResumed prio _ _ _ => some prio
  | .linking prio _ _ => some prio
  | _ => none

/-- A thread that is suspended in `rt_prio_queue_pop`, or was resumed there to try again. -/
def Call.Waits : Call D → Prop
  | .popSuspended _ => True
  | .popResumed _ result => result = .eok
  | _ => False

/-- A thread that holds no block, and does not wait for an item. -/
def Call.Quiet (c : Call D) : Prop := c.item = none ∧ ¬c.Waits

/-- The thread is about to look for an item. -/
def Call.Looks (c : Call D) : Prop := c = .idle ∨ ∃ timeout, c = .popResumed timeout .eok

/-- **What a step does**, to the state and to the log. -/
inductive StepCase (stray : Items D → Items D) (s : State T D) (a : Act T D) (s' : State T D) : Prop
  | calm (t : T) (p : Call D) : (s.call t).Quiet → p.Quiet → (p.pushPrio = none ∨ p.pushPrio = (s.call t).pushPrio ∨ ∃ k < 32, p.pushPrio = some k) →
      s'.call = Function.update s.call t p → s'.queue = s.queue → s'.blockList = s.blockList →
      s'.suspendedPopList = s.suspendedPopList → (∀ g, log s a s' g = g) → StepCase stray s a s'
  | alloc (t : T) (prio : ℕ) (data : D) (item : ℕ) (blockList : List ℕ) : (s.call t).Quiet →
      (prio < 32 ∨ (s.call t).pushPrio = some prio) → s.blockList = item :: blockList →
      s' = ({ s with blockList }.setItems
        { next := Function.update s.queue.items.next item none
          data := Function.update s.queue.items.data item data }).setCall t (.linking prio data item) →
      (∀ g, log s a s' g = g) → StepCase stray s a s'
  | link (t : T) (prio : ℕ) (data : D) (item : ℕ) (queue : Queue D) : s.call t = .linking prio data item →
      s.queue.doPush prio item = some queue → s' = ({ s with queue }.setCall t .idle).resumePop →
      (∀ g, log s a s' g = { g with pushed := g.pushed + 1, queued := g.queued ++ [⟨g.pushed, prio, data, item⟩] }) →
      StepCase stray s a s'
  | take (t : T) (item : ℕ) (queue : Queue D) : (s.call t).Looks → s.queue.doPop = some (some item, queue) →
      s' = { s with queue }.setCall t (.copying item) → (∀ g, log s a s' g = g.take t item) → StepCase stray s a s'
  | leave (t : T) (queue : Queue D) : (s.call t).Looks → s.queue.doPop = some (none, queue) →
      s' = { s with queue }.setCall t .idle → (∀ g, log s a s' g = g) → StepCase stray s a s'
  | sleep (t : T) (timeout : ℤ) (queue : Queue D) : (s.call t).Looks → s.queue.doPop = some (none, queue) →
      s' = { s with queue, suspendedPopList := s.suspendedPopList ++ [t] }.setCall t (.popSuspended timeout) →
      (∀ g, log s a s' g = g) → StepCase stray s a s'
  | expire (t : T) (timeout : ℤ) : s.call t = .popSuspended timeout →
      s' = { s with suspendedPopList := s.suspendedPopList.erase t }.setCall t (.popResumed timeout .etimeout) →
      (∀ g, log s a s' g = g) → StepCase stray s a s'
  | copy (t : T) (item : ℕ) : s.call t = .copying item → a = .copy t →
      s' = (s.setCall t .idle).mpFree stray item → StepCase stray s a s'

theorem StepCase.of_mpAlloc {data : D} {timeout : ℤ} (hquiet : (s.call t).Quiet)
    (hprio : prio < 32 ∨ (s.call t).pushPrio = some prio) (hs : s.mpAlloc t prio data timeout = s')
    (hlog : ∀ g, (∀ b, s'.call t ≠ .copying b) → log s a s' g = g) : StepCase stray s a s' := by
  unfold State.mpAlloc at hs
  cases hb : s.blockList with
  | nil =>
    rw [hb] at hs
    simp only at hs
    split at hs
    · subst hs
      refine .calm t .idle hquiet ⟨rfl, id⟩ (.inl rfl) rfl rfl rfl rfl fun g => hlog g fun b => ?_
      simp
    · subst hs
      refine .calm t (.allocSuspended prio data timeout) hquiet ⟨rfl, id⟩ ?_ rfl rfl hb.symm rfl fun g => hlog g fun b => ?_
      · rcases hprio with hlt | heq
        · exact .inr (.inr ⟨prio, hlt, rfl⟩)
        · exact .inr (.inl heq.symm)
      · simp
  | cons item blockList =>
    rw [hb] at hs
    subst hs
    refine .alloc t prio data item blockList hquiet hprio hb rfl fun g => hlog g fun b => ?_
    simp

theorem StepCase.of_pop {timeout : ℤ} (hlooks : (s.call t).Looks) (hs : s.pop t timeout = some s')
    (hlog : ∀ g, log s a s' g = match s'.call t with
      | .copying item => g.take t item
      | _ => g) : StepCase stray s a s' := by
  unfold State.pop at hs
  split at hs
  · cases hs
  · rename_i item queue hpop
    cases hs
    refine .take t item queue hlooks hpop rfl fun g => ?_
    rw [hlog, setCall_self]
  · rename_i queue hpop
    split at hs
    · cases hs
      refine .leave t queue hlooks hpop rfl fun g => ?_
      rw [hlog, setCall_self]
    · cases hs
      refine .sleep t timeout queue hlooks hpop rfl fun g => ?_
      rw [hlog, setCall_self]

theorem step_cases (hs : s.step stray a = some s') : StepCase stray s a s' := by
  cases a with
  | push t prio data timeout =>
    unfold State.step at hs
    simp only at hs
    split at hs
    · rename_i hidle
      have hquiet : (s.call t).Quiet := by
        rw [hidle]
        exact ⟨rfl, id⟩
      split at hs
      · cases hs
        exact .calm t .idle hquiet ⟨rfl, id⟩ (.inl rfl) (by rw [← hidle, Function.update_eq_self]) rfl rfl rfl
          fun _ => rfl
      · rename_i hprio
        exact .of_mpAlloc hquiet (.inl (not_le.1 hprio)) (Option.some.inj hs) fun _ _ => rfl
    · cases hs
  | link t =>
    unfold State.step at hs
    simp only at hs
    split at hs
    · rename_i prio data item hcall
      obtain ⟨queue, hpush, rfl⟩ := Option.map_eq_some_iff.1 hs
      refine .link t prio data item queue hcall hpush rfl fun g => ?_
      unfold log
      simp only [hcall]
    · cases hs
  | pop t timeout =>
    unfold State.step at hs
    simp only at hs
    split at hs
    · rename_i hidle
      exact .of_pop (.inl hidle) hs fun _ => rfl
    · cases hs
  | copy t =>
    unfold State.step at hs
    simp only at hs
    split at hs
    · rename_i item hcall
      cases hs
      exact .copy t item hcall rfl rfl
    · cases hs
  | resume t elapsed =>
    unfold State.step at hs
    simp only at hs
    split at hs
    · rename_i prio data timeout result hcall
      have hquiet : (s.call t).Quiet := by
        rw [hcall]
        exact ⟨rfl, id⟩
      split at hs
      · refine .of_mpAlloc hquiet (.inr (by rw [hcall]; rfl)) (Option.some.inj hs) fun g hno => ?_
        unfold log
        simp only
      · cases hs
        refine .calm t .idle hquiet ⟨rfl, id⟩ (.inl rfl) rfl rfl rfl rfl fun g => ?_
        unfold log
        simp only [setCall_self]
    · rename_i timeout result hcall
      split at hs
      · rename_i hok
        exact .of_pop (.inr ⟨timeout, hok ▸ hcall⟩) hs fun _ => rfl
      · rename_i hnot
        cases hs
        refine .calm t .idle ?_ ⟨rfl, id⟩ (.inl rfl) rfl rfl rfl rfl fun g => ?_
        · rw [hcall]
          exact ⟨rfl, hnot⟩
        · unfold log
          simp only [setCall_self]
    · cases hs
  | timer t =>
    unfold State.step at hs
    simp only at hs
    split at hs
    · rename_i prio data timeout hcall
      split at hs
      · cases hs
        refine .calm t (.allocResumed prio data timeout .etimeout) ?_ ⟨rfl, id⟩ (.inr (.inl ?_)) rfl rfl rfl rfl fun _ => rfl
        · rw [hcall]
          exact ⟨rfl, id⟩
        · rw [hcall]
          rfl
      · cases hs
    · rename_i timeout hcall
      split at hs
      · cases hs
        exact .expire t timeout hcall rfl fun _ => rfl
      · cases hs
    · cases hs

theorem Call.Looks.quiet_or {c : Call D} (h : c.Looks) : c.item = none ∧ ∀ timeout, c ≠ .popSuspended timeout := by
  obtain rfl | ⟨timeout, rfl⟩ := h
  · exact ⟨rfl, nofun⟩
  · exact ⟨rfl, nofun⟩

/-- The first suspended thread is resumed, if there is one. -/
theorem resumePop_cases (s : State T D) : s.suspendedPopList = [] ∧ s.resumePop = s ∨ ∃ u l,
    s.suspendedPopList = u :: l ∧ ((∃ timeout, s.call u = .popSuspended timeout ∧
      s.resumePop = { s with suspendedPopList := l }.setCall u (.popResumed timeout .eok)) ∨
    (∀ timeout, s.call u ≠ .popSuspended timeout)) := by
  unfold State.resumePop
  cases hl : s.suspendedPopList with
  | nil => exact .inl ⟨rfl, rfl⟩
  | cons u l =>
    refine .inr ⟨u, l, rfl, ?_⟩
    cases hc : s.call u with
    | popSuspended timeout => exact .inl ⟨timeout, rfl, by simp only [hc]⟩
    | _ => exact .inr nofun

@[simp] theorem resumePop_queue : s.resumePop.queue = s.queue := by
  unfold State.resumePop
  split
  · rfl
  · split <;> rfl

@[simp] theorem resumePop_blockList : s.resumePop.blockList = s.blockList := by
  unfold State.resumePop
  split
  · rfl
  · split <;> rfl

theorem resumePop_call (u : T) : s.resumePop.call u = s.call u ∨
    ∃ timeout, s.resumePop.call u = .popResumed timeout .eok := by
  unfold State.resumePop
  split
  · exact .inl rfl
  · rename_i v l _
    split
    · rename_i timeout _
      by_cases huv : u = v
      · subst huv
        exact .inr ⟨timeout, setCall_self _⟩
      · exact .inl (setCall_ne huv)
    · exact .inl rfl

/-- Where `rt_mp_free` finds the threads it counts, it leaves the items alone. -/
theorem mpFree_facts (stray : Items D → Items D) (item : ℕ) (hok : 0 < s.suspendThreadCount → s.suspendThread ≠ []) :
    (s.mpFree stray item).queue = s.queue ∧ (s.mpFree stray item).blockList = item :: s.blockList ∧
      (s.mpFree stray item).suspendedPopList = s.suspendedPopList ∧
      ∀ u, (s.mpFree stray item).call u = s.call u ∨ ∃ prio data timeout,
        s.call u = .allocSuspended prio data timeout ∧
          (s.mpFree stray item).call u = .allocResumed prio data timeout .eok := by
  unfold State.mpFree
  simp only
  by_cases hcount : 0 < s.suspendThreadCount
  · rw [if_pos hcount]
    split
    · rename_i hnil
      exact absurd hnil (hok hcount)
    · rename_i v l _
      split
      · rename_i prio data timeout hcall
        refine ⟨rfl, rfl, rfl, fun u => ?_⟩
        by_cases huv : u = v
        · subst huv
          exact .inr ⟨prio, data, timeout, hcall, setCall_self _⟩
        · exact .inl (setCall_ne huv)
      · exact ⟨rfl, rfl, rfl, fun u => .inl rfl⟩
  · rw [if_neg hcount]
    exact ⟨rfl, rfl, rfl, fun u => .inl rfl⟩

/-! ## The items -/

/-- **Every block is queued, free or held by one thread**, and the lists are those of the queued items. -/
structure Stored (s : State T D) (g : Log T D) : Prop where
  lists : Lists s.queue g.queued
  prio : ∀ t k, (s.call t).pushPrio = some k → k < 32
  blocks : (g.queued.map Entry.item ++ s.blockList).Nodup
  held : ∀ t b, (s.call t).item = some b → b ∉ g.queued.map Entry.item ++ s.blockList
  apart : ∀ t u b, (s.call t).item = some b → (s.call u).item = some b → t = u
  linking : ∀ t k d b, s.call t = .linking k d b → s.queue.items.next b = none ∧ s.queue.items.data b = d

omit [DecidableEq T] in
/-- Threads that take no block do not matter. -/
theorem Stored.calls (h : Stored s g) (hq : s'.queue = s.queue) (hb : s'.blockList = s.blockList)
    (hc : ∀ u, s'.call u = s.call u ∨ (s'.call u).item = none ∧ ∀ k, (s'.call u).pushPrio = some k → k < 32) :
    Stored s' g where
  lists := hq ▸ h.lists
  prio u k hk := by
    rcases hc u with heq | ⟨-, hp⟩
    · exact h.prio u k (heq ▸ hk)
    · exact hp k hk
  blocks := hb ▸ h.blocks
  held u b hu := by
    rcases hc u with heq | ⟨hnone, -⟩
    · exact hb ▸ h.held u b (heq ▸ hu)
    · rw [hnone] at hu
      cases hu
  apart t u b ht hu := by
    rcases hc t with heq | ⟨hnone, -⟩
    · rcases hc u with heq' | ⟨hnone, -⟩
      · exact h.apart t u b (heq ▸ ht) (heq' ▸ hu)
      · rw [hnone] at hu
        cases hu
    · rw [hnone] at ht
      cases ht
  linking u k d b hu := by
    rcases hc u with heq | ⟨hnone, -⟩
    · exact hq ▸ h.linking u k d b (heq ▸ hu)
    · rw [hu] at hnone
      cases hnone

/-- A thread gets a block, which was queued or free. -/
theorem Stored.gets (h : Stored s g) {g' : Log T D} {c : Call D} (ht : (s.call t).item = none)
    (hc : s'.call = Function.update s.call t c) (hitem : c.item = some item)
    (hprio : ∀ k, c.pushPrio = some k → k < 32) (hlists : Lists s'.queue g'.queued)
    (hperm : (g.queued.map Entry.item ++ s.blockList).Perm (item :: (g'.queued.map Entry.item ++ s'.blockList)))
    (hlink : ∀ k d b, c = .linking k d b → s'.queue.items.next b = none ∧ s'.queue.items.data b = d)
    (hsame : ∀ b, b ≠ item → s'.queue.items.next b = s.queue.items.next b ∧
      s'.queue.items.data b = s.queue.items.data b) : Stored s' g' := by
  have hself : s'.call t = c := by rw [hc, Function.update_self]
  have hcall : ∀ u, u ≠ t → s'.call u = s.call u := fun u hu => by rw [hc, Function.update_of_ne hu]
  have hblocks := List.nodup_cons.1 (hperm.nodup_iff.1 h.blocks)
  have hother : ∀ u b, (s.call u).item = some b → b ≠ item := by
    rintro u b hu rfl
    exact h.held u _ hu (hperm.mem_iff.2 List.mem_cons_self)
  refine ⟨hlists, fun u k hk => ?_, hblocks.2, fun u b hu => ?_, fun v u b hv hu => ?_, fun u k d b hu => ?_⟩
  · by_cases hut : u = t
    · subst hut
      exact hprio k (hself ▸ hk)
    · exact h.prio u k (hcall u hut ▸ hk)
  · by_cases hut : u = t
    · subst hut
      rw [hself, hitem] at hu
      cases hu
      exact hblocks.1
    · rw [hcall u hut] at hu
      exact fun hin => h.held u b hu (hperm.mem_iff.2 (List.mem_cons_of_mem _ hin))
  · by_cases hvt : v = t
    · by_cases hut : u = t
      · rw [hvt, hut]
      · subst hvt
        rw [hself, hitem] at hv
        cases hv
        rw [hcall u hut] at hu
        exact absurd rfl (hother u _ hu)
    · rw [hcall v hvt] at hv
      by_cases hut : u = t
      · subst hut
        rw [hself, hitem] at hu
        cases hu
        exact absurd rfl (hother v _ hv)
      · rw [hcall u hut] at hu
        exact h.apart v u b hv hu
  · by_cases hut : u = t
    · subst hut
      exact hlink k d b (hself ▸ hu)
    · rw [hcall u hut] at hu
      obtain ⟨hnext, hdata⟩ := h.linking u k d b hu
      obtain ⟨hn, hd⟩ := hsame b (hother u b (by rw [hu]; rfl))
      exact ⟨hn.trans hnext, hd.trans hdata⟩

/-- A thread takes a free block. -/
theorem Stored.alloc {data : D} {blockList : List ℕ} (h : Stored s g) (ht : (s.call t).item = none) (hprio : prio < 32)
    (hb : s.blockList = item :: blockList) :
    Stored (({ s with blockList }.setItems
      { next := Function.update s.queue.items.next item none
        data := Function.update s.queue.items.data item data }).setCall t (.linking prio data item)) g := by
  have hperm : (g.queued.map Entry.item ++ s.blockList).Perm (item :: (g.queued.map Entry.item ++ blockList)) := by
    rw [hb]
    exact List.perm_middle
  have hfresh := (List.nodup_cons.1 (hperm.nodup_iff.1 h.blocks)).1
  refine h.gets ht rfl rfl (fun k hk => ?_) (h.lists.setItems fun b hin => ?_) hperm (fun k d b hl => ?_) fun b hne =>
    ⟨Function.update_of_ne hne _ _, Function.update_of_ne hne _ _⟩
  · cases hk
    exact hprio
  · have hne : b ≠ item := by
      rintro rfl
      exact hfresh (List.mem_append_left _ hin)
    exact ⟨Function.update_of_ne hne _ _, Function.update_of_ne hne _ _⟩
  · cases hl
    exact ⟨Function.update_self _ _ _, Function.update_self _ _ _⟩

/-- A thread is done with its block, which is queued or free now. -/
theorem Stored.done (h : Stored s g) {g' : Log T D} {c : Call D} (ht : (s.call t).item = some item)
    (hc : s'.call = Function.update s.call t c) (hquiet : c.item = none ∧ c.pushPrio = none)
    (hlists : Lists s'.queue g'.queued)
    (hperm : (g'.queued.map Entry.item ++ s'.blockList).Perm (item :: (g.queued.map Entry.item ++ s.blockList)))
    (hsame : ∀ b, b ∉ g.queued.map Entry.item → s'.queue.items.next b = s.queue.items.next b ∧
      s'.queue.items.data b = s.queue.items.data b) : Stored s' g' := by
  have hself : s'.call t = c := by rw [hc, Function.update_self]
  have hcall : ∀ u, u ≠ t → s'.call u = s.call u := fun u hu => by rw [hc, Function.update_of_ne hu]
  have hnot : ∀ u b, (s'.call u).item = some b → u ≠ t := by
    rintro u b hu rfl
    rw [hself, hquiet.1] at hu
    cases hu
  refine ⟨hlists, fun u k hk => ?_, hperm.nodup_iff.2 (List.nodup_cons.2 ⟨h.held t item ht, h.blocks⟩),
    fun u b hu hin => ?_, fun v u b hv hu => ?_, fun u k d b hu => ?_⟩
  · by_cases hut : u = t
    · subst hut
      rw [hself, hquiet.2] at hk
      cases hk
    · exact h.prio u k (hcall u hut ▸ hk)
  · have hne := hnot u b hu
    rw [hcall u hne] at hu
    rcases List.mem_cons.1 (hperm.mem_iff.1 hin) with rfl | hin
    · exact hne (h.apart u t b hu ht)
    · exact h.held u b hu hin
  · have hnv := hnot v b hv
    have hnu := hnot u b hu
    rw [hcall v hnv] at hv
    rw [hcall u hnu] at hu
    exact h.apart v u b hv hu
  · have hne := hnot u b (by rw [hu]; rfl)
    rw [hcall u hne] at hu
    obtain ⟨hnext, hdata⟩ := h.linking u k d b hu
    have hb := h.held u b (by rw [hu]; rfl)
    obtain ⟨hn, hd⟩ := hsame b fun hin => hb (List.mem_append_left _ hin)
    exact ⟨hn.trans hnext, hd.trans hdata⟩

/-- A thread unlinks a block. -/
theorem Stored.unlink {e : Entry D} {queue : Queue D} {g' : Log T D} (h : Stored s g) (hg : g.queued = l₁ ++ e :: l₂)
    (ht : (s.call t).item = none) (hlists : Lists queue (l₁ ++ l₂)) (hitems : queue.items = s.queue.items)
    (hg' : g'.queued = l₁ ++ l₂) : Stored ({ s with queue }.setCall t (.copying e.item)) g' := by
  refine h.gets (c := .copying e.item) ht rfl rfl nofun (hg' ▸ hlists) ?_ nofun fun b _ => ?_
  · rw [hg, hg', List.map_append, List.map_cons, List.map_append]
    exact List.perm_middle.append_right _
  · show queue.items.next b = _ ∧ queue.items.data b = _
    rw [hitems]
    exact ⟨rfl, rfl⟩

/-- What a step logs as unlinked. -/
theorem take_split {e : Entry D} (hnd : (g.queued.map Entry.item).Nodup) (hg : g.queued = l₁ ++ e :: l₂) :
    g.take t e.item = { g with
      queued := l₁ ++ l₂
      taken := g.taken ++ [e]
      holds := Function.update g.holds t (some e) } := by
  have hnot : ∀ e' ∈ l₁, ¬decide (e'.item = e.item) = true := by
    intro e' he' heq
    rw [hg, List.map_append, List.map_cons] at hnd
    exact (List.nodup_append.1 hnd).2.2 e'.item (List.mem_map_of_mem he') e.item List.mem_cons_self (of_decide_eq_true heq)
  have hfind : g.queued.find? (fun e' => decide (e'.item = e.item)) = some e := by
    rw [hg]
    exact List.find?_eq_some_iff_append.2 ⟨by simp, l₁, l₂, rfl, fun e' he' => by simpa using hnot e' he'⟩
  have herase : g.queued.eraseP (fun e' => decide (e'.item = e.item)) = l₁ ++ l₂ := by
    rw [hg, List.eraseP_append_right _ hnot, List.eraseP_cons_of_pos (by simp)]
  unfold Log.take
  rw [hfind, herase]
  rfl

theorem stored_step (h : Stored s g) (hok : FindsThread s a) (hs : s.step stray a = some s') :
    Stored s' (log s a s' g) := by
  cases step_cases hs with
  | calm t p hold hnew hprio hcall hq hb hl hlog =>
    rw [hlog]
    refine h.calls hq hb fun u => ?_
    rw [hcall]
    by_cases hut : u = t
    · subst hut
      rw [Function.update_self]
      refine .inr ⟨hnew.1, fun k hk => ?_⟩
      rcases hprio with hnone | heq | ⟨k', hlt, heq⟩
      · rw [hnone] at hk
        cases hk
      · exact h.prio u k (heq ▸ hk)
      · rw [heq] at hk
        cases hk
        exact hlt
    · exact .inl (Function.update_of_ne hut _ _)
  | alloc t prio data item blockList hold hprio hb hs' hlog =>
    rw [hlog]
    subst hs'
    exact h.alloc hold.1 (hprio.elim id (h.prio t prio)) hb
  | link t prio data item queue hcall hpush hs' hlog =>
    rw [hlog]
    subst hs'
    have hitem : (s.call t).item = some item := by
      rw [hcall]
      rfl
    obtain ⟨hnext, hdata⟩ := h.linking t prio data item hcall
    have hprio : prio < 32 := h.prio t prio (by rw [hcall]; rfl)
    have hfresh := h.held t item hitem
    obtain ⟨queue', hpush', hlists, hsamedata, hsamenext⟩ := h.lists.doPush (e := ⟨g.pushed, prio, data, item⟩) hprio
      (fun hin => hfresh (List.mem_append_left _ hin)) hnext hdata
    obtain rfl : queue = queue' := Option.some.inj (hpush.symm.trans hpush')
    have hdone : Stored ({ s with queue }.setCall t .idle)
        { g with pushed := g.pushed + 1, queued := g.queued ++ [⟨g.pushed, prio, data, item⟩] } := by
      refine h.done hitem rfl ⟨rfl, rfl⟩ hlists ?_ fun b hb => ⟨hsamenext b hb, congrFun hsamedata b⟩
      rw [List.map_append, List.append_assoc]
      exact List.perm_middle
    refine hdone.calls (by simp) (by simp) fun u => ?_
    rcases resumePop_call (s := { s with queue }.setCall t .idle) u with heq | ⟨timeout, heq⟩
    · exact .inl heq
    · rw [heq]
      exact .inr ⟨rfl, nofun⟩
  | take t item queue hlooks hpop hs' hlog =>
    rw [hlog]
    subst hs'
    rcases h.lists.doPop with ⟨-, hnone⟩ | ⟨l₁, e, l₂, queue', hg, -, -, hpop', hlists, hitems⟩
    · rw [hnone] at hpop
      cases hpop
    · rw [hpop'] at hpop
      cases hpop
      rw [take_split h.lists.nodup hg]
      exact h.unlink hg hlooks.quiet_or.1 hlists hitems rfl
  | leave t queue hlooks hpop hs' hlog =>
    rw [hlog]
    subst hs'
    refine h.calls (h.lists.of_doPop_none hpop).2 rfl fun u => ?_
    by_cases hut : u = t
    · subst hut
      rw [setCall_self]
      exact .inr ⟨rfl, nofun⟩
    · exact .inl (setCall_ne hut)
  | sleep t timeout queue hlooks hpop hs' hlog =>
    rw [hlog]
    subst hs'
    refine h.calls (h.lists.of_doPop_none hpop).2 rfl fun u => ?_
    by_cases hut : u = t
    · subst hut
      rw [setCall_self]
      exact .inr ⟨rfl, nofun⟩
    · exact .inl (setCall_ne hut)
  | expire t timeout hcall hs' hlog =>
    rw [hlog]
    subst hs'
    refine h.calls rfl rfl fun u => ?_
    by_cases hut : u = t
    · subst hut
      rw [setCall_self]
      exact .inr ⟨rfl, nofun⟩
    · exact .inl (setCall_ne hut)
  | copy t item hcall ha hs' =>
    subst ha hs'
    have hitem : (s.call t).item = some item := by
      rw [hcall]
      rfl
    obtain ⟨hq, hb, -, hother⟩ := mpFree_facts stray (s := s.setCall t .idle) item hok
    have hqueued : (log s (.copy t) ((s.setCall t .idle).mpFree stray item) g).queued = g.queued := by
      unfold log
      simp only
      split <;> rfl
    have hdone : Stored { s.setCall t .idle with blockList := item :: s.blockList }
        (log s (.copy t) ((s.setCall t .idle).mpFree stray item) g) := by
      refine h.done hitem rfl ⟨rfl, rfl⟩ (hqueued ▸ h.lists) ?_ fun b _ => ⟨rfl, rfl⟩
      rw [hqueued]
      exact List.perm_middle
    refine hdone.calls hq hb fun u => ?_
    rcases hother u with heq | ⟨prio, data, timeout, hsusp, heq⟩
    · exact .inl heq
    · refine .inr ⟨by rw [heq]; rfl, fun k hk => ?_⟩
      rw [heq] at hk
      cases hk
      exact hdone.prio u prio (by show ((s.setCall t .idle).call u).pushPrio = _; rw [hsusp]; rfl)

/-! ## The log -/

/-- **Each item pushed is queued or was taken once**; a thread that copies holds an item taken and not returned. -/
structure Accounted (s : State T D) (g : Log T D) : Prop where
  once : ((g.taken ++ g.queued).map Entry.seq).Perm (List.range g.pushed)
  order : (g.queued.map Entry.seq).Pairwise (· < ·)
  holds : ∀ t b, s.call t = .copying b → ∃ e, g.holds t = some e ∧ e.item = b ∧ s.queue.items.data b = e.data ∧
    e ∈ g.taken ∧ e.seq ∉ g.returned.map (·.1.seq)
  returned : (g.returned.map (·.1.seq)).Nodup
  data : ∀ x ∈ g.returned, x.1 ∈ g.taken ∧ x.2 = x.1.data

section Accounts

omit [DecidableEq T]

theorem Accounted.seq_nodup (h : Accounted s g) : ((g.taken ++ g.queued).map Entry.seq).Nodup :=
  h.once.nodup_iff.2 List.nodup_range

theorem Accounted.seq_lt (h : Accounted s g) {e : Entry D} (he : e ∈ g.queued) : e.seq < g.pushed :=
  List.mem_range.1 (h.once.mem_iff.1 (List.mem_map_of_mem (List.mem_append_right _ he)))

/-- The threads that copy go on, with their data. -/
theorem Accounted.calls (h : Accounted s g) (hc : ∀ u b, s'.call u = .copying b → s.call u = .copying b)
    (hd : ∀ u b, s.call u = .copying b → s'.queue.items.data b = s.queue.items.data b) : Accounted s' g where
  once := h.once
  order := h.order
  holds u b hu := by
    obtain ⟨e, hholds, hitem, hdata, htaken, hret⟩ := h.holds u b (hc u b hu)
    exact ⟨e, hholds, hitem, (hd u b (hc u b hu)).trans hdata, htaken, hret⟩
  returned := h.returned
  data := h.data

/-- An item is pushed. -/
theorem Accounted.push (h : Accounted s g) (prio : ℕ) (data : D) (item : ℕ) : Accounted s
    { g with pushed := g.pushed + 1, queued := g.queued ++ [⟨g.pushed, prio, data, item⟩] } where
  once := by
    rw [← List.append_assoc, List.map_append, List.range_succ]
    exact h.once.append_right _
  order := by
    rw [List.map_append]
    refine List.pairwise_append.2 ⟨h.order, List.pairwise_singleton _ _, fun i hi j hj => ?_⟩
    obtain ⟨e, he, rfl⟩ := List.mem_map.1 hi
    rw [List.mem_singleton.1 hj]
    exact h.seq_lt he
  holds := h.holds
  returned := h.returned
  data := h.data

end Accounts

/-- An item is unlinked. -/
theorem Accounted.take {e : Entry D} {queue : Queue D} (h : Accounted s g) (hg : g.queued = l₁ ++ e :: l₂)
    (hitems : queue.items = s.queue.items) (hdata : s.queue.items.data e.item = e.data) :
    Accounted ({ s with queue }.setCall t (.copying e.item)) { g with
      queued := l₁ ++ l₂
      taken := g.taken ++ [e]
      holds := Function.update g.holds t (some e) } where
  once := by
    have hperm : (g.taken ++ [e] ++ (l₁ ++ l₂)).Perm (g.taken ++ g.queued) := by
      rw [hg, List.append_assoc, List.singleton_append]
      exact List.perm_middle.symm.append_left _
    exact (hperm.map _).trans h.once
  order := by
    have hsub : (l₁ ++ l₂).Sublist g.queued := by
      rw [hg]
      exact (List.Sublist.refl l₁).append (List.sublist_cons_self e l₂)
    exact h.order.sublist (hsub.map _)
  holds u b hu := by
    by_cases hut : u = t
    · subst hut
      rw [setCall_self] at hu
      cases hu
      refine ⟨e, Function.update_self _ _ _, rfl, ?_, List.mem_append_right _ List.mem_cons_self, fun hin => ?_⟩
      · show queue.items.data e.item = e.data
        rw [hitems]
        exact hdata
      · obtain ⟨x, hx, hseq⟩ := List.mem_map.1 hin
        have hnd := h.seq_nodup
        rw [List.map_append] at hnd
        exact (List.nodup_append.1 hnd).2.2 x.1.seq (List.mem_map_of_mem (h.data x hx).1) e.seq
          (List.mem_map_of_mem (by rw [hg]; simp)) hseq
    · rw [setCall_ne hut] at hu
      obtain ⟨e', hholds, hitem, hdata', htaken, hret⟩ := h.holds u b hu
      refine ⟨e', (Function.update_of_ne hut _ _).trans hholds, hitem, ?_, List.mem_append_left _ htaken, hret⟩
      show queue.items.data b = e'.data
      rw [hitems]
      exact hdata'
  returned := h.returned
  data x hx := ⟨List.mem_append_left _ (h.data x hx).1, (h.data x hx).2⟩

/-- A pop returns. -/
theorem Accounted.return {e : Entry D} (h : Accounted s g) (hst : Stored s g) (ht : s.call t = .copying item)
    (he : g.holds t = some e) : Accounted (s.setCall t .idle)
      { g with returned := g.returned ++ [(e, s.queue.items.data item)] } := by
  obtain ⟨e', hholds, hitem, hdata, htaken, hret⟩ := h.holds t item ht
  obtain rfl : e = e' := Option.some.inj (he.symm.trans hholds)
  refine ⟨h.once, h.order, fun u b hu => ?_, ?_, fun x hx => ?_⟩
  · have hut : u ≠ t := by
      rintro rfl
      rw [setCall_self] at hu
      cases hu
    rw [setCall_ne hut] at hu
    obtain ⟨e', hholds', hitem', hdata', htaken', hret'⟩ := h.holds u b hu
    refine ⟨e', hholds', hitem', hdata', htaken', fun hin => ?_⟩
    rw [List.map_append, List.mem_append] at hin
    rcases hin with hin | hin
    · exact hret' hin
    · -- two threads would hold the block of one item
      have hnd := h.seq_nodup
      rw [List.map_append] at hnd
      have heq := List.inj_on_of_nodup_map (List.nodup_append.1 hnd).1 htaken' htaken (List.mem_singleton.1 hin)
      subst heq
      refine hut (hst.apart u t item (by rw [hu, ← hitem', hitem]; rfl) (by rw [ht]; rfl))
  · rw [List.map_append]
    refine List.nodup_append.2 ⟨h.returned, List.nodup_singleton _, fun i hi j hj heq => ?_⟩
    have heq' : i = e.seq := heq.trans (List.mem_singleton.1 hj)
    exact hret (heq' ▸ hi)
  · rcases List.mem_append.1 hx with hx | hx
    · exact h.data x hx
    · rw [List.mem_singleton.1 hx]
      exact ⟨htaken, hdata⟩

theorem accounted_step (h : Accounted s g) (hst : Stored s g) (hok : FindsThread s a) (hs : s.step stray a = some s') :
    Accounted s' (log s a s' g) := by
  have hsetCall : ∀ (t : T) (p : Call D), (∀ b, p ≠ .copying b) → ∀ u b,
      Function.update s.call t p u = .copying b → s.call u = .copying b := by
    intro t p hp u b hu
    by_cases hut : u = t
    · subst hut
      rw [Function.update_self] at hu
      exact absurd hu (hp b)
    · rwa [Function.update_of_ne hut] at hu
  cases step_cases hs with
  | calm t p hold hnew hprio hcall hq hb hl hlog =>
    rw [hlog]
    refine h.calls (fun u b hu => hsetCall t p ?_ u b (hcall ▸ hu)) fun u b _ => by rw [hq]
    rintro b rfl
    cases hnew.1
  | alloc t prio data item blockList hold hprio hb hs' hlog =>
    rw [hlog]
    subst hs'
    refine h.calls (hsetCall t _ nofun) fun u b hu => Function.update_of_ne ?_ _ _
    rintro rfl
    exact hst.held u b (by rw [hu]; rfl) (List.mem_append_right _ (by rw [hb]; exact List.mem_cons_self))
  | link t prio data item queue hcall hpush hs' hlog =>
    rw [hlog]
    subst hs'
    obtain ⟨hnext, hdata⟩ := hst.linking t prio data item hcall
    have hfresh := hst.held t item (by rw [hcall]; rfl)
    obtain ⟨queue', hpush', -, hsame, -⟩ := hst.lists.doPush (e := ⟨g.pushed, prio, data, item⟩)
      (hst.prio t prio (by rw [hcall]; rfl)) (fun hin => hfresh (List.mem_append_left _ hin)) hnext hdata
    obtain rfl : queue = queue' := Option.some.inj (hpush.symm.trans hpush')
    refine (h.push prio data item).calls (fun u b hu => hsetCall t .idle nofun u b ?_) fun u b _ => ?_
    · rcases resumePop_call (s := { s with queue }.setCall t .idle) u with heq | ⟨timeout, heq⟩
      · exact heq.symm.trans hu
      · rw [heq] at hu
        cases hu
    · rw [resumePop_queue]
      exact congrFun hsame b
  | take t item queue hlooks hpop hs' hlog =>
    rw [hlog]
    subst hs'
    rcases hst.lists.doPop with ⟨-, hnone⟩ | ⟨l₁, e, l₂, queue', hg, -, -, hpop', -, hitems⟩
    · rw [hnone] at hpop
      cases hpop
    · rw [hpop'] at hpop
      cases hpop
      rw [take_split hst.lists.nodup hg]
      exact h.take hg hitems (hst.lists.data e (by rw [hg]; simp))
  | leave t queue hlooks hpop hs' hlog =>
    rw [hlog]
    subst hs'
    refine h.calls (hsetCall t .idle nofun) fun u b _ => ?_
    rw [setCall_queue, (hst.lists.of_doPop_none hpop).2]
  | sleep t timeout queue hlooks hpop hs' hlog =>
    rw [hlog]
    subst hs'
    refine h.calls (hsetCall t _ nofun) fun u b _ => ?_
    rw [setCall_queue, (hst.lists.of_doPop_none hpop).2]
  | expire t timeout hcall hs' hlog =>
    rw [hlog]
    subst hs'
    exact h.calls (hsetCall t _ nofun) fun u b _ => rfl
  | copy t item hcall ha hs' =>
    subst ha hs'
    obtain ⟨hq, -, -, hother⟩ := mpFree_facts stray (s := s.setCall t .idle) item hok
    obtain ⟨e, hholds, -⟩ := h.holds t item hcall
    have hlog : log s (.copy t) ((s.setCall t .idle).mpFree stray item) g =
        { g with returned := g.returned ++ [(e, s.queue.items.data item)] } := by
      unfold log
      simp only [hcall, hholds]
    rw [hlog]
    refine (h.return hst hcall hholds).calls (fun u b hu => ?_) fun u b _ => by rw [hq]
    rcases hother u with heq | ⟨prio, data, timeout, -, heq⟩
    · exact heq ▸ hu
    · rw [heq] at hu
      cases hu

/-! ## The threads -/

/-- **Suspended threads are listed, and where items are queued threads have been resumed for them.** -/
structure Awake (s : State T D) (g : Log T D) : Prop where
  nodup : s.suspendedPopList.Nodup
  listed : ∀ t, t ∈ s.suspendedPopList ↔ ∃ timeout, s.call t = .popSuspended timeout
  resumed : s.suspendedPopList ≠ [] → ∃ l : List T, l.Nodup ∧
    (∀ t ∈ l, ∃ timeout, s.call t = .popResumed timeout .eok) ∧ g.queued.length ≤ l.length

omit [DecidableEq T] in
/-- Threads that do not wait for items do not matter, and fewer items need fewer threads. -/
theorem Awake.calls {g' : Log T D} (h : Awake s g) (hl : s'.suspendedPopList = s.suspendedPopList)
    (hg : g'.queued.length ≤ g.queued.length)
    (hc : ∀ u, s'.call u = s.call u ∨ ¬(s.call u).Waits ∧ ¬(s'.call u).Waits) : Awake s' g' where
  nodup := hl ▸ h.nodup
  listed t := by
    rw [hl, h.listed]
    rcases hc t with heq | ⟨hold, hnew⟩
    · rw [heq]
    · refine ⟨fun ⟨timeout, hs⟩ => absurd ?_ hold, fun ⟨timeout, hs⟩ => absurd ?_ hnew⟩
      · rw [hs]
        trivial
      · rw [hs]
        trivial
  resumed hne := by
    obtain ⟨l, hnd, hl', hlen⟩ := h.resumed (hl ▸ hne)
    refine ⟨l, hnd, fun t ht => ?_, hg.trans hlen⟩
    obtain ⟨timeout, hs⟩ := hl' t ht
    rcases hc t with heq | ⟨hold, -⟩
    · exact ⟨timeout, heq.trans hs⟩
    · rw [hs] at hold
      exact absurd rfl hold

/-- A push resumes a thread for its item. -/
theorem Awake.link {g' : Log T D} (h : Awake s g) (hg : g'.queued.length = g.queued.length + 1) :
    Awake s.resumePop g' := by
  rcases resumePop_cases s with ⟨hnil, heq⟩ | ⟨u, l, hl, ⟨timeout, hu, heq⟩ | hnot⟩
  · rw [heq]
    exact ⟨h.nodup, h.listed, fun hne => absurd hnil hne⟩
  · rw [heq]
    have hnd := h.nodup
    rw [hl] at hnd
    obtain ⟨hul, hnd⟩ := List.nodup_cons.1 hnd
    refine ⟨hnd, fun t => ?_, fun _ => ?_⟩
    · by_cases htu : t = u
      · subst htu
        rw [setCall_self]
        exact ⟨fun hin => absurd hin hul, nofun⟩
      · rw [setCall_ne htu]
        show t ∈ l ↔ ∃ timeout, s.call t = _
        rw [← h.listed t, hl, List.mem_cons]
        exact ⟨.inr, fun hor => hor.resolve_left htu⟩
    · obtain ⟨r, hr, hresumed, hlen⟩ := h.resumed (by rw [hl]; nofun)
      have hur : u ∉ r := by
        intro hin
        obtain ⟨timeout', hs⟩ := hresumed u hin
        rw [hu] at hs
        cases hs
      refine ⟨u :: r, List.nodup_cons.2 ⟨hur, hr⟩, fun t ht => ?_, by rw [List.length_cons]; omega⟩
      rcases List.mem_cons.1 ht with rfl | hin
      · exact ⟨timeout, setCall_self _⟩
      · have htu : t ≠ u := by
          intro htu
          subst htu
          exact hur hin
        rw [setCall_ne htu]
        exact hresumed t hin
  · have hin : u ∈ s.suspendedPopList := by
      rw [hl]
      exact List.mem_cons_self
    obtain ⟨timeout, hs⟩ := (h.listed u).1 hin
    exact absurd hs (hnot timeout)

/-- A resumed thread, or one that has just come, takes an item. -/
theorem Awake.take {queue : Queue D} {g' : Log T D} (h : Awake s g) (hlooks : (s.call t).Looks)
    (hg : g.queued.length = g'.queued.length + 1) : Awake ({ s with queue }.setCall t (.copying item)) g' := by
  refine ⟨h.nodup, fun u => ?_, fun hne => ?_⟩
  · by_cases hut : u = t
    · subst hut
      rw [setCall_self]
      refine ⟨fun hin => ?_, nofun⟩
      obtain ⟨timeout, hs⟩ := (h.listed u).1 hin
      exact absurd hs (hlooks.quiet_or.2 timeout)
    · rw [setCall_ne hut]
      exact h.listed u
  · obtain ⟨l, hnd, hresumed, hlen⟩ := h.resumed hne
    refine ⟨l.erase t, hnd.erase t, fun u hu => ?_, ?_⟩
    · obtain ⟨hut, hin⟩ := (hnd.mem_erase_iff).1 hu
      rw [setCall_ne hut]
      exact hresumed u hin
    · have := List.le_length_erase (a := t) (l := l)
      omega

/-- A thread finds nothing, and goes to sleep. -/
theorem Awake.sleep {timeout : ℤ} {queue : Queue D} (h : Awake s g) (hlooks : (s.call t).Looks) (hg : g.queued = []) :
    Awake ({ s with queue, suspendedPopList := s.suspendedPopList ++ [t] }.setCall t (.popSuspended timeout)) g := by
  have hnot : t ∉ s.suspendedPopList := by
    intro hin
    obtain ⟨timeout', hs⟩ := (h.listed t).1 hin
    exact absurd hs (hlooks.quiet_or.2 timeout')
  refine ⟨?_, fun u => ?_, fun _ => ⟨[], List.nodup_nil, nofun, by rw [hg]; exact Nat.le_refl _⟩⟩
  · exact List.nodup_append.2 ⟨h.nodup, List.nodup_singleton t, fun a ha b hb heq =>
      hnot (List.mem_singleton.1 hb ▸ heq ▸ ha)⟩
  · show u ∈ s.suspendedPopList ++ [t] ↔ _
    rw [List.mem_append, List.mem_singleton]
    by_cases hut : u = t
    · subst hut
      rw [setCall_self]
      exact ⟨fun _ => ⟨timeout, rfl⟩, fun _ => .inr rfl⟩
    · rw [setCall_ne hut]
      exact ⟨fun hor => (h.listed u).1 (hor.resolve_right hut), fun hs => .inl ((h.listed u).2 hs)⟩

/-- A thread that finds nothing returns. -/
theorem Awake.leave {queue : Queue D} (h : Awake s g) (hlooks : (s.call t).Looks) (hg : g.queued = []) :
    Awake ({ s with queue }.setCall t .idle) g := by
  refine ⟨h.nodup, fun u => ?_, fun _ => ⟨[], List.nodup_nil, nofun, by rw [hg]; exact Nat.le_refl _⟩⟩
  by_cases hut : u = t
  · subst hut
    rw [setCall_self]
    refine ⟨fun hin => ?_, nofun⟩
    obtain ⟨timeout, hs⟩ := (h.listed u).1 hin
    exact absurd hs (hlooks.quiet_or.2 timeout)
  · rw [setCall_ne hut]
    exact h.listed u

/-- The timer of a suspended thread runs out. -/
theorem Awake.expire {timeout : ℤ} (h : Awake s g) (ht : s.call t = .popSuspended timeout) :
    Awake ({ s with suspendedPopList := s.suspendedPopList.erase t }.setCall t (.popResumed timeout .etimeout)) g := by
  refine ⟨h.nodup.erase t, fun u => ?_, fun hne => ?_⟩
  · show u ∈ s.suspendedPopList.erase t ↔ _
    rw [h.nodup.mem_erase_iff]
    by_cases hut : u = t
    · subst hut
      rw [setCall_self]
      exact ⟨fun hand => absurd rfl hand.1, nofun⟩
    · rw [setCall_ne hut]
      exact ⟨fun hand => (h.listed u).1 hand.2, fun hs => ⟨hut, (h.listed u).2 hs⟩⟩
  · obtain ⟨l, hnd, hresumed, hlen⟩ := h.resumed (by
      intro hnil
      refine hne ?_
      show s.suspendedPopList.erase t = []
      rw [hnil]
      rfl)
    refine ⟨l, hnd, fun u hu => ?_, hlen⟩
    obtain ⟨timeout', hs⟩ := hresumed u hu
    have hut : u ≠ t := by
      rintro rfl
      rw [ht] at hs
      cases hs
    exact ⟨timeout', (setCall_ne hut).trans hs⟩

theorem awake_step (h : Awake s g) (hst : Stored s g) (hok : FindsThread s a) (hs : s.step stray a = some s') :
    Awake s' (log s a s' g) := by
  have hmove : ∀ (t : T) (p : Call D), ¬(s.call t).Waits → ¬p.Waits → ∀ u,
      Function.update s.call t p u = s.call u ∨ ¬(s.call u).Waits ∧ ¬(Function.update s.call t p u).Waits := by
    intro t p hold hnew u
    by_cases hut : u = t
    · subst hut
      rw [Function.update_self]
      exact .inr ⟨hold, hnew⟩
    · exact .inl (Function.update_of_ne hut _ _)
  cases step_cases hs with
  | calm t p hold hnew hprio hcall hq hb hl hlog =>
    rw [hlog]
    refine h.calls hl (Nat.le_refl _) ?_
    rw [hcall]
    exact hmove t p hold.2 hnew.2
  | alloc t prio data item blockList hold hprio hb hs' hlog =>
    rw [hlog]
    subst hs'
    exact h.calls rfl (Nat.le_refl _) (hmove t _ hold.2 id)
  | link t prio data item queue hcall hpush hs' hlog =>
    rw [hlog]
    subst hs'
    refine Awake.link (g := g) ?_ ?_
    · exact h.calls rfl (Nat.le_refl _) (hmove t .idle (by rw [hcall]; exact id) id)
    · exact List.length_append
  | take t item queue hlooks hpop hs' hlog =>
    rw [hlog]
    subst hs'
    rcases hst.lists.doPop with ⟨-, hnone⟩ | ⟨l₁, e, l₂, queue', hg, -, -, hpop', -, -⟩
    · rw [hnone] at hpop
      cases hpop
    · rw [hpop'] at hpop
      cases hpop
      rw [take_split hst.lists.nodup hg]
      refine h.take hlooks ?_
      rw [hg, List.length_append, List.length_append, List.length_cons, Nat.add_assoc]
  | leave t queue hlooks hpop hs' hlog =>
    rw [hlog]
    subst hs'
    exact h.leave hlooks (hst.lists.of_doPop_none hpop).1
  | sleep t timeout queue hlooks hpop hs' hlog =>
    rw [hlog]
    subst hs'
    exact h.sleep hlooks (hst.lists.of_doPop_none hpop).1
  | expire t timeout hcall hs' hlog =>
    rw [hlog]
    subst hs'
    exact h.expire hcall
  | copy t item hcall ha hs' =>
    subst ha hs'
    obtain ⟨-, -, hl, hother⟩ := mpFree_facts stray (s := s.setCall t .idle) item hok
    have hqueued : (log s (.copy t) ((s.setCall t .idle).mpFree stray item) g).queued = g.queued := by
      unfold log
      simp only
      split <;> rfl
    have hidle : Awake (s.setCall t .idle) g :=
      h.calls rfl (Nat.le_refl _) (hmove t .idle (by rw [hcall]; exact id) id)
    refine hidle.calls hl (by rw [hqueued]) fun u => ?_
    rcases hother u with heq | ⟨prio, data, timeout, hold, hnew⟩
    · exact .inl heq
    · refine .inr ⟨?_, ?_⟩
      · rw [hold]
        exact id
      · rw [hnew]
        exact id

/-! ## Runs -/

/-- What a step unlinks is what `_do_pop` gives. -/
theorem pops_doPop (ha : a.pops = some t) (hs : s.step stray a = some s') (hcopy : s'.call t = .copying item) :
    ∃ queue, s.queue.doPop = some (some item, queue) := by
  have hpop : ∀ timeout, s.pop t timeout = some s' → ∃ queue, s.queue.doPop = some (some item, queue) := by
    intro timeout hpop
    unfold State.pop at hpop
    split at hpop
    · cases hpop
    · rename_i item' queue hdo
      cases hpop
      rw [setCall_self] at hcopy
      cases hcopy
      exact ⟨queue, hdo⟩
    · split at hpop
      all_goals
        cases hpop
        rw [setCall_self] at hcopy
        cases hcopy
  cases a with
  | pop v timeout =>
    obtain rfl : v = t := Option.some.inj ha
    unfold State.step at hs
    simp only at hs
    split at hs
    · exact hpop timeout hs
    · cases hs
  | resume v elapsed =>
    obtain rfl : v = t := Option.some.inj ha
    unfold State.step at hs
    simp only at hs
    split at hs
    · rename_i prio data timeout result hcall
      cases hs
      split at hcopy
      · unfold State.mpAlloc at hcopy
        split at hcopy
        · split at hcopy
          all_goals
            rw [setCall_self] at hcopy
            cases hcopy
        · rw [setCall_self] at hcopy
          cases hcopy
      · rw [setCall_self] at hcopy
        cases hcopy
    · split at hs
      · exact hpop _ hs
      · cases hs
        rw [setCall_self] at hcopy
        cases hcopy
    · cases hs
  | push | link | copy | timer => cases ha

/-- **The invariant** of the queue. -/
structure Inv (s : State T D) (g : Log T D) : Prop where
  stored : Stored s g
  accounted : Accounted s g
  awake : Awake s g

omit [DecidableEq T] in
theorem Inv.init (n : ℕ) (items : Items D) : Inv (State.init n items : State T D) Log.start where
  stored :=
    { lists :=
        { chain := fun _ _ => rfl
          tail := fun _ _ k b heq => absurd heq.symm (by simp [blocks, Log.start])
          bits := fun p => by simp [State.init, Log.start]
          prio := nofun
          data := nofun
          nodup := List.nodup_nil }
      prio := nofun
      blocks := List.nodup_range
      held := nofun
      apart := nofun
      linking := nofun }
  accounted := ⟨List.Perm.refl _, List.Pairwise.nil, nofun, List.nodup_nil, nofun⟩
  awake := ⟨List.nodup_nil, fun t => ⟨nofun, nofun⟩, fun hne => absurd rfl hne⟩

/-- **A priority queue delivers each item once, in order, and wakes up threads for them** in every run in which
`rt_mp_free` finds the threads it counts. -/
theorem prioQueue_delivers {n : ℕ} (h : Runs stray n FindsThread (s, g)) : Delivers stray s g := by
  have hinv : Inv s g := by
    refine Run.Reach.inv (I := fun p : State T D × Log T D => Inv p.1 p.2) ?_ ?_ h
    · rintro ⟨s, g⟩ ⟨⟨items, rfl⟩, rfl⟩
      exact .init n items
    · rintro ⟨s, g⟩ a ⟨s', g'⟩ hi hok ⟨hs, hlog⟩
      obtain rfl : g' = log s a s' g := hlog
      exact ⟨stored_step hi.stored hok hs, accounted_step hi.accounted hi.stored hok hs, awake_step hi.awake hi.stored hok hs⟩
  obtain ⟨hst, hacc, haw⟩ := hinv
  refine ⟨hacc.once, hacc.order, hacc.returned, hacc.data, fun a t s' item ha hs hcopy => ?_, hst.lists.chain,
    fun p hp => ?_, ⟨haw.nodup, haw.listed⟩, ?_⟩
  · obtain ⟨queue, hpop⟩ := pops_doPop ha hs hcopy
    rcases hst.lists.doPop with ⟨-, hnone⟩ | ⟨l₁, e, l₂, queue', hg, hlt, hle, hpop', -, -⟩
    · rw [hnone] at hpop
      cases hpop
    · rw [hpop'] at hpop
      cases hpop
      exact ⟨e, rfl, l₁, l₂, hg, hlt, hle⟩
  · rw [hst.lists.bits p, hst.lists.head_ne hp]
  · by_cases hnil : s.suspendedPopList = []
    · exact ⟨[], List.nodup_nil, nofun, by rw [hnil]; exact Nat.min_le_left _ _⟩
    · obtain ⟨l, hnd, hresumed, hlen⟩ := haw.resumed hnil
      exact ⟨l, hnd, hresumed, (Nat.min_le_right _ _).trans hlen⟩

/-- Two items are pushed, of which the one of the smaller priority number is taken first, by a thread that slept. -/
theorem prioQueue_delivers_two : ∃ (s : State Bool ℕ) (g : Log Bool ℕ), g.returned = [(⟨1, 2, 20, 1⟩, 20)] ∧
    Delivers id s g := by
  have hinit : Initial 2 (State.init 2 ⟨fun _ => none, fun _ => 0⟩ : State Bool ℕ) := ⟨_, rfl⟩
  obtain ⟨⟨s, g⟩, hr, h⟩ := Run.Reach.exec_logged (fun (s : State Bool ℕ) a => s.step id a)
    (fun _ => (Log.start : Log Bool ℕ)) log FindsThread hinit
    [.pop true (-1), .push false 3 10 0, .link false, .push false 2 20 0, .link false, .resume true 0, .copy true]
    (fun p => decide (p.2.returned = [(⟨1, 2, 20, 1⟩, 20)])) (by decide)
  exact ⟨s, g, of_decide_eq_true h, prioQueue_delivers hr⟩

/-- `RT_EOK` in the `next` of block 1. -/
def strayNext (items : Items ℕ) : Items ℕ := { items with next := Function.update items.next 1 none }

/-- **A push that timed out breaks the lists**: items of 4 bytes in a queue made by `rt_prio_queue_create`, where
`thread->error` of what `rt_mp_free` takes for a thread is the `next` of block 1. Two items are out of their list when
the first one is freed, and a later one is popped before them. -/
theorem prioQueue_loses : ∃ (s : State Bool ℕ) (g : Log Bool ℕ), Runs strayNext 4 Run.Any (s, g) ∧
    ¬Delivers strayNext s g := by
  have hinit : Initial 4 (State.init 4 ⟨fun _ => none, fun _ => 0⟩ : State Bool ℕ) := ⟨_, rfl⟩
  obtain ⟨⟨s, g⟩, hr, h⟩ := Run.Reach.exec_logged (fun (s : State Bool ℕ) a => s.step strayNext a)
    (fun _ => (Log.start : Log Bool ℕ)) log Run.Any hinit
    [.push false 1 10 0, .link false, .push false 1 11 0, .link false, .push false 1 12 0, .link false,
      .push false 1 13 0, .link false, .push true 1 14 10, .timer true, .resume true 10, .pop false 0, .copy false,
      .pop false 0, .copy false, .push false 1 15 0, .link false]
    (fun p => decide (p.2.queued = [⟨2, 1, 12, 2⟩, ⟨3, 1, 13, 3⟩, ⟨4, 1, 15, 1⟩]) &&
      (p.1.step strayNext (.pop false 0)).any fun (s₁ : State Bool ℕ) => decide (s₁.call false = .copying 1))
    (by decide)
  refine ⟨s, g, hr, fun hd => ?_⟩
  rw [Bool.and_eq_true, decide_eq_true_eq, Option.any_eq_true] at h
  obtain ⟨hg, s', hs, hcopy⟩ := h
  obtain ⟨e, hitem, l₁, l₂, hl, hlt, -⟩ := hd.first (.pop false 0) false s' 1 rfl hs (of_decide_eq_true hcopy)
  -- the item popped has others of its priority before it
  rw [show g.queued = [⟨2, 1, 12, 2⟩, ⟨3, 1, 13, 3⟩, ⟨4, 1, 15, 1⟩] from hg] at hl
  cases l₁ with
  | nil =>
    cases hl
    cases hitem
  | cons x l₁ =>
    obtain ⟨rfl, htail⟩ := List.cons.inj hl
    have hfirst := hlt _ List.mem_cons_self
    have hprio : ∀ e' ∈ [(⟨3, 1, 13, 3⟩ : Entry ℕ), ⟨4, 1, 15, 1⟩], e'.prio = 1 := by decide
    rw [hprio e (by rw [htail]; simp)] at hfirst
    exact absurd hfirst (Nat.lt_irrefl 1)

end RtThread.PrioQueue
