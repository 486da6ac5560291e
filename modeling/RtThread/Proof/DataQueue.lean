import RtThread.Spec.DataQueue
import RtThread.Lib.Cyclic

/-!
# Data queues are bounded queues until a wrapped counter misleads them

* `stores_put`, `returns_get`: what a step does to the ring.
* `holds_step`: the ring holds what was pushed and not returned.
* `queue_fifo`: so it is in every run in which each push behind a wrapped `put_index` finds room.
* `queue_overwrites`: a queue of one item takes two of them.
-/

namespace RtThread.DataQueue

open Sched

variable {T : Type} [DecidableEq T] {s s' : State T} {g : Log} {a : Act T} {stored : List DataItem}
  {size lwm : ℕ} {item : DataItem} {t : T} {timeout : ℤ}

/-! ## What a step does to the ring -/

@[simp] theorem setCall_queue (p : Call) : (s.setCall t p).queue = s.queue := rfl

@[simp] theorem resumePop_queue : s.resumePop.queue = s.queue := by
  unfold State.resumePop
  split
  · rfl
  · split <;> rfl

@[simp] theorem resumePush_queue : s.resumePush.queue = s.queue := by
  unfold State.resumePush
  split
  · rfl
  · split <;> rfl

theorem push_queue : (s.push t item timeout).queue =
    if s.queue.difference = s.queue.size then s.queue else s.queue.put item := by
  unfold State.push
  split
  · split <;> rfl
  · rw [resumePop_queue]
    rfl

theorem pop_queue : (s.pop t timeout).queue =
    if s.queue.getIndex = s.queue.putIndex then s.queue else s.queue.get := by
  unfold State.pop
  split
  · split <;> rfl
  · simp only
    split
    · rw [resumePush_queue]
      rfl
    · rfl

/-- **What a step does to the ring**: it puts the item that it stores, or it takes the one that it returns. -/
inductive QueueCase (s : State T) (a : Act T) (s' : State T) : Prop
  | put (item : DataItem) : s.pushes a = some item → s.queue.difference ≠ s.queue.size → s.stores a = some item →
      s.returns a = none → s'.queue = s.queue.put item → QueueCase s a s'
  | get : s.queue.getIndex ≠ s.queue.putIndex → s.stores a = none → s.returns a = some s.queue.head →
      s'.queue = s.queue.get → QueueCase s a s'
  | same : s.stores a = none → s.returns a = none → s'.queue = s.queue → QueueCase s a s'

theorem QueueCase.of_push (hpush : s.pushes a = some item) (hpop : s.pops a = false)
    (hq : s'.queue = (s.push t item timeout).queue) : QueueCase s a s' := by
  rw [push_queue] at hq
  have hret : s.returns a = none := by simp [State.returns, hpop]
  by_cases hfull : s.queue.difference = s.queue.size
  · rw [if_pos hfull] at hq
    exact .same (if_pos hfull) hret hq
  · rw [if_neg hfull] at hq
    exact .put item hpush hfull ((if_neg hfull).trans hpush) hret hq

theorem QueueCase.of_pop (hpush : s.pushes a = none) (hpop : s.pops a = true)
    (hq : s'.queue = (s.pop t timeout).queue) : QueueCase s a s' := by
  rw [pop_queue] at hq
  have hsto : s.stores a = none := by simp [State.stores, hpush]
  by_cases hempty : s.queue.getIndex = s.queue.putIndex
  · rw [if_pos hempty] at hq
    exact .same hsto (by simp [State.returns, hempty]) hq
  · rw [if_neg hempty] at hq
    exact .get hempty hsto (by simp [State.returns, hempty, hpop]) hq

omit [DecidableEq T] in
theorem QueueCase.of_other (hpush : s.pushes a = none) (hpop : s.pops a = false) (hq : s'.queue = s.queue) :
    QueueCase s a s' :=
  .same (by simp [State.stores, hpush]) (by simp [State.returns, hpop]) hq

theorem queue_cases (hs : s.step a = some s') : QueueCase s a s' := by
  cases a with
  | push t item timeout =>
    simp only [State.step] at hs
    split at hs
    · cases hs
      exact .of_push rfl rfl rfl
    · cases hs
  | pop t timeout =>
    simp only [State.step] at hs
    split at hs
    · cases hs
      exact .of_pop rfl rfl rfl
    · cases hs
  | resume t =>
    simp only [State.step] at hs
    split at hs
    · rename_i item timeout result hc
      cases hs
      by_cases hr : result = .eok
      · rw [if_pos hr]
        exact .of_push (by simp [State.pushes, hc, hr]) (by simp [State.pops, hc]) rfl
      · rw [if_neg hr]
        exact .of_other (by simp [State.pushes, hc, hr]) (by simp [State.pops, hc]) rfl
    · rename_i timeout result hc
      cases hs
      by_cases hr : result = .eok
      · rw [if_pos hr]
        exact .of_pop (by simp [State.pushes, hc]) (by simp [State.pops, hc, hr]) rfl
      · rw [if_neg hr]
        exact .of_other (by simp [State.pushes, hc]) (by simp [State.pops, hc, hr]) rfl
    · cases hs
  | timer t =>
    simp only [State.step] at hs
    split at hs
    · split at hs
      · cases hs
        exact .of_other rfl rfl rfl
      · cases hs
    · split at hs
      · cases hs
        exact .of_other rfl rfl rfl
      · cases hs
    · cases hs

/-! ## What the ring holds -/

variable {q : Queue}

/-- The ring holds `stored`. -/
structure Stored (q : Queue) (stored : List DataItem) : Prop where
  size_lt : q.size < 2 ^ 16
  get_lt : q.getIndex < 2 ^ 16
  put_eq : q.putIndex = uint16 (q.getIndex + stored.length)
  bounded : stored.length ≤ q.size
  slots : ∀ i < stored.length, some (q.queue (q.slot i)) = stored[i]?

theorem Stored.put_wrapped (h : Stored q stored) :
    q.putIndex = if q.getIndex + stored.length < 2 ^ 16 then q.getIndex + stored.length
      else q.getIndex + stored.length - 2 ^ 16 := by
  have hsize := h.size_lt
  have hget := h.get_lt
  have hlen := h.bounded
  rw [h.put_eq, uint16]
  split
  · exact Nat.mod_eq_of_lt ‹_›
  · rw [Nat.mod_eq_sub_mod (by omega), Nat.mod_eq_of_lt (by omega)]

theorem Stored.count (h : Stored q stored) : q.count = stored.length := by
  have hsize := h.size_lt
  have hget := h.get_lt
  have hlen := h.bounded
  have hput := h.put_wrapped
  unfold Queue.count uint16
  split at hput
  · rw [show q.putIndex + 2 ^ 16 - q.getIndex = stored.length + 2 ^ 16 by omega, Nat.add_mod_right,
      Nat.mod_eq_of_lt (by omega)]
  · rw [show q.putIndex + 2 ^ 16 - q.getIndex = stored.length by omega, Nat.mod_eq_of_lt (by omega)]

theorem Stored.empty (h : Stored q stored) : q.getIndex = q.putIndex ↔ stored = [] := by
  have hsize := h.size_lt
  have hlen := h.bounded
  have hput := h.put_wrapped
  have hget := h.get_lt
  rw [← List.length_eq_zero_iff]
  split at hput <;> omega

/-- **A push goes into a free slot.** -/
theorem Stored.put (h : Stored q stored) (hroom : stored.length < q.size)
    (hfree : ∀ i < stored.length, q.slot i ≠ q.slot stored.length) (item : DataItem) :
    Stored (q.put item) (stored ++ [item]) := by
  have hput : q.putIndex % q.size = q.slot stored.length := by rw [h.put_eq, Queue.slot]
  refine ⟨h.size_lt, h.get_lt, ?_, ?_, fun i hi => ?_⟩
  · show uint16 (q.putIndex + 1) = uint16 (q.getIndex + (stored ++ [item]).length)
    rw [h.put_eq, List.length_append, List.length_singleton, uint16, uint16, uint16, Nat.mod_add_mod, Nat.add_assoc]
  · rw [List.length_append]
    exact hroom
  · rw [List.length_append, List.length_singleton] at hi
    show some (Function.update q.queue (q.putIndex % q.size) item (q.slot i)) = _
    rw [hput]
    by_cases hlast : i = stored.length
    · rw [hlast, Function.update_self, List.getElem?_concat_length]
    · have hlt : i < stored.length := by omega
      rw [Function.update_of_ne (hfree i hlt), h.slots i hlt, List.getElem?_append_left hlt]

/-- **A pop takes the oldest item.** -/
theorem Stored.get (h : Stored q stored) (hne : q.getIndex ≠ q.putIndex) :
    ∃ rest, stored = q.head :: rest ∧ Stored q.get rest := by
  obtain ⟨item, rest, rfl⟩ := List.exists_cons_of_ne_nil (mt h.empty.2 hne)
  have hslot : ∀ i, q.get.slot i = q.slot (i + 1) := fun i => by
    show uint16 (uint16 (q.getIndex + 1) + i) % q.size = uint16 (q.getIndex + (i + 1)) % q.size
    rw [uint16, uint16, uint16, Nat.mod_add_mod, Nat.add_right_comm, Nat.add_assoc]
  have hhead : q.head = item := by
    have hfirst := h.slots 0 (by simp)
    rw [Queue.slot, Nat.add_zero, uint16, Nat.mod_eq_of_lt h.get_lt] at hfirst
    exact Option.some.inj hfirst
  refine ⟨rest, by rw [hhead], h.size_lt, Nat.mod_lt _ (by decide), ?_, Nat.le_of_succ_le h.bounded, fun i hi => ?_⟩
  · show q.putIndex = uint16 (uint16 (q.getIndex + 1) + rest.length)
    rw [h.put_eq, List.length_cons, uint16, uint16, uint16, Nat.mod_add_mod, Nat.add_right_comm, Nat.add_assoc]
  · rw [hslot]
    exact h.slots (i + 1) (Nat.succ_lt_succ hi)

/-- The place of the next item is free where `put_index` has not wrapped. -/
theorem Stored.room (h : Stored q stored) (hdiff : q.difference ≠ q.size)
    (hok : q.getIndex ≤ q.putIndex ∨ q.count < q.size ∧
      (q.putIndex < 2 ^ 16 % q.size → q.count < 2 ^ 16 % q.size)) :
    stored.length < q.size ∧ ∀ i < stored.length, q.slot i ≠ q.slot stored.length := by
  have hsize := h.size_lt
  have hget := h.get_lt
  have hlen := h.bounded
  have hput := h.put_wrapped
  rw [h.count] at hok
  have hroom : stored.length < q.size := by
    rcases hok with hle | ⟨hlt, -⟩
    · unfold Queue.difference at hdiff
      split at hput <;> omega
    · exact hlt
  refine ⟨hroom, fun i hi => Cyclic.wrapped_ne hget hsize.le hroom hi fun hwrap hjump => ?_⟩
  rw [if_neg (by omega)] at hput
  rcases hok with hle | ⟨-, hfree⟩
  · omega
  · exact hfree (hput ▸ hjump)

omit [DecidableEq T] in
/-- **A change of the ring keeps what it holds**, unless a wrapped `put_index` misleads a push. -/
theorem QueueCase.keeps (hcase : QueueCase s a s') (h : Stored s.queue stored) (hg : g.pushed = g.popped ++ stored)
    (hok : KeepsItems s a) : ∃ stored', Stored s'.queue stored' ∧
      (log s a s' g).pushed = (log s a s' g).popped ++ stored' := by
  unfold log
  cases hcase with
  | put item hpush hdiff hsto hret hq =>
    obtain ⟨hroom, hfree⟩ := h.room hdiff (hok (by rw [hpush]; rfl))
    refine ⟨stored ++ [item], hq ▸ h.put hroom hfree item, ?_⟩
    rw [hsto, hret, hg]
    simp
  | get hne hsto hret hq =>
    obtain ⟨rest, hrest, hget⟩ := h.get hne
    refine ⟨rest, hq ▸ hget, ?_⟩
    rw [hsto, hret, hg, hrest]
    simp
  | same hsto hret hq =>
    refine ⟨stored, hq ▸ h, ?_⟩
    rw [hsto, hret, hg]
    simp

theorem stored_step (h : Stored s.queue stored) (hg : g.pushed = g.popped ++ stored) (hok : KeepsItems s a)
    (hs : s.step a = some s') : ∃ stored', Stored s'.queue stored' ∧
      (log s a s' g).pushed = (log s a s' g).popped ++ stored' :=
  (queue_cases hs).keeps h hg hok

theorem size_step (hs : s.step a = some s') : s'.queue.size = s.queue.size := by
  cases queue_cases hs with
  | put item _ _ _ _ hq => rw [hq, Queue.put]
  | get _ _ _ hq => rw [hq, Queue.get]
  | same _ _ hq => rw [hq]

theorem Stored.init (pool : ℕ → DataItem) (size lwm : ℕ) : Stored (rtDataQueueInit pool size lwm) [] :=
  ⟨Nat.mod_lt _ (by decide), show 0 < 2 ^ 16 by decide, rfl, Nat.zero_le _, nofun⟩

omit [DecidableEq T] in
/-- A push that the condition rules out stores where `size` items are stored, or in the slot of one. -/
theorem Stored.overwrites (h : Stored s.queue stored) (hbad : ¬KeepsItems s a) :
    (s.stores a).isSome ∧ (stored.length = s.queue.size ∨
      ∃ i < stored.length, s.queue.slot i = s.queue.slot stored.length) := by
  unfold KeepsItems at hbad
  rw [h.count] at hbad
  simp only [Classical.not_imp, not_or, not_and, not_le] at hbad
  obtain ⟨hpush, hlt, hbad⟩ := hbad
  have hput := h.put_wrapped
  have hlen := h.bounded
  constructor
  · have hdiff : s.queue.difference ≠ s.queue.size := by
      unfold Queue.difference
      omega
    rw [State.stores, if_neg hdiff]
    exact hpush
  · by_cases hfull : stored.length = s.queue.size
    · exact .inl hfull
    · right
      obtain ⟨hjump, hle⟩ := hbad (by omega)
      split at hput
      · omega
      · rw [hput] at hjump
        exact ⟨stored.length - 2 ^ 16 % s.queue.size, by omega, Cyclic.wrapped_eq (by omega) hjump (not_lt.1 hle)⟩

/-- A queue of one item, which is always the same, with the given counters. -/
def oneItem (getIndex putIndex : ℕ) : State Unit := ⟨⟨1, 0, getIndex, putIndex, fun _ => ⟨0, 0⟩⟩, [], [], fun _ => .idle⟩

theorem oneItem_push {getIndex putIndex : ℕ} (hdiff : (putIndex : ℤ) - getIndex ≠ 1) (g : Log) :
    (oneItem getIndex putIndex).step (.push () ⟨0, 0⟩ 0) = some (oneItem getIndex (uint16 (putIndex + 1))) ∧
      log (oneItem getIndex putIndex) (.push () ⟨0, 0⟩ 0) (oneItem getIndex (uint16 (putIndex + 1))) g =
        ⟨g.pushed ++ [⟨0, 0⟩], g.popped⟩ := by
  have hfull : (oneItem getIndex putIndex).queue.difference ≠ (oneItem getIndex putIndex).queue.size := hdiff
  have hput : (oneItem getIndex putIndex).queue.put ⟨0, 0⟩ = (oneItem getIndex (uint16 (putIndex + 1))).queue := by
    unfold Queue.put oneItem
    simp
  have hpush : (oneItem getIndex putIndex).push () ⟨0, 0⟩ 0 = oneItem getIndex (uint16 (putIndex + 1)) := by
    rw [State.push, if_neg hfull, hput]
    unfold State.resumePop State.setCall oneItem
    simp
  constructor
  · rw [← hpush]
    rfl
  · simp [log, State.stores, State.returns, State.pushes, State.pops, hfull]

theorem oneItem_pop {getIndex putIndex : ℕ} (hne : getIndex ≠ putIndex) (g : Log) :
    (oneItem getIndex putIndex).step (.pop () 0) = some (oneItem (uint16 (getIndex + 1)) putIndex) ∧
      log (oneItem getIndex putIndex) (.pop () 0) (oneItem (uint16 (getIndex + 1)) putIndex) g =
        ⟨g.pushed, g.popped ++ [⟨0, 0⟩]⟩ := by
  have hempty : (oneItem getIndex putIndex).queue.getIndex ≠ (oneItem getIndex putIndex).queue.putIndex := hne
  have hpop : (oneItem getIndex putIndex).pop () 0 = oneItem (uint16 (getIndex + 1)) putIndex := by
    rw [State.pop, if_neg hempty]
    unfold State.resumePush State.setCall oneItem Queue.get
    simp
  constructor
  · rw [← hpop]
    rfl
  · simp [log, State.stores, State.returns, State.pushes, State.pops, hne, Queue.head, oneItem]

/-- The counters go up together. -/
theorem oneItem_reach (k : ℕ) (hk : k < 2 ^ 16) :
    Runs 1 0 Run.Any (oneItem k k, ⟨List.replicate k ⟨0, 0⟩, List.replicate k ⟨0, 0⟩⟩) := by
  induction k with
  | zero => exact .init ⟨⟨fun _ => ⟨0, 0⟩, rfl⟩, rfl⟩
  | succ k ih =>
    have hnext : uint16 (k + 1) = k + 1 := Nat.mod_eq_of_lt hk
    obtain ⟨hpush, hlog⟩ := @oneItem_push k k (by omega) ⟨List.replicate k ⟨0, 0⟩, List.replicate k ⟨0, 0⟩⟩
    obtain ⟨hpop, hlog'⟩ := @oneItem_pop k (k + 1) (by omega) ⟨List.replicate (k + 1) ⟨0, 0⟩, List.replicate k ⟨0, 0⟩⟩
    rw [hnext] at hpush hlog hpop hlog'
    rw [← List.replicate_succ'] at hlog hlog'
    have hr : Runs 1 0 Run.Any (oneItem k (k + 1), ⟨List.replicate (k + 1) ⟨0, 0⟩, List.replicate k ⟨0, 0⟩⟩) :=
      (ih (by omega)).step trivial ⟨hpush, hlog.symm⟩
    exact hr.step trivial ⟨hpop, hlog'.symm⟩

end RtThread.DataQueue
