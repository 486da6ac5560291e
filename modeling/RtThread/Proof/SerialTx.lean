import RtThread.Spec.SerialTx
import RtThread.Proof.DataQueue

/-!
# DMA transmission sends the buffers in order, if writers take their turn

`Phase` says where the channel is: idle, or a writer is about to start the head of the queue, or the head of the
queue is in flight. What was sent is what has been taken off the queue, and the head if it is in flight.

* `queue_step`: what a step does with the queue.
* `sent_step`: each step keeps the phase.
* `sent_inOrder`: the buffers are sent once and in order, in every run in which writers take their turn.
* `sent_outOfTurn`: a buffer is sent in front of the one that was pushed before it.
-/

namespace RtThread.SerialTx

open DataQueue (DataItem Stored QueueCase)

variable {T : Type} [DecidableEq T] {s s' : State T} {g : Log} {a : Act T} {t : T} {item : DataItem}
  {stored : List DataItem}

/-- Where the channel is, for a queue of `stored` items of which `popped` have been taken off before. -/
inductive Phase (s : State T) (popped stored sent : List DataItem) : Prop
  | idle : s.activated = false → s.inFlight = [] → (∀ t item, s.writer t ≠ .starting item) → sent = popped →
      Phase s popped stored sent
  | starting (t : T) (item : DataItem) (rest : List DataItem) : s.activated = true → s.inFlight = [] →
      s.writer t = .starting item → (∀ u item, s.writer u = .starting item → u = t) → stored = item :: rest →
      sent = popped → Phase s popped stored sent
  | flight (item : DataItem) (rest : List DataItem) : s.activated = true → s.inFlight = [item] →
      (∀ t item, s.writer t ≠ .starting item) → stored = item :: rest → sent = popped ++ [item] →
      Phase s popped stored sent

/-- The invariant. -/
structure Sent (s : State T) (g : Log) (stored : List DataItem) : Prop where
  holds : Stored s.dataQueue.queue stored
  fifo : g.queue.pushed = g.queue.popped ++ stored
  phase : Phase s g.queue.popped stored g.transmitted
  complete : ∀ p ∈ g.completed, p.2 = some p.1

omit [DecidableEq T] in
theorem Sent.inOrder (h : Sent s g stored) : InOrder s g := by
  refine ⟨?_, ?_, h.complete⟩
  · rw [h.fifo]
    cases h.phase with
    | idle _ _ _ hsent =>
      rw [hsent]
      exact List.prefix_append _ _
    | starting t item rest _ _ _ _ _ hsent =>
      rw [hsent]
      exact List.prefix_append _ _
    | flight item rest _ _ _ hst hsent =>
      rw [hsent, hst]
      exact ⟨rest, by simp⟩
  · cases h.phase with
    | idle _ hfl _ _ => rw [hfl]; exact Nat.zero_le 1
    | starting t item rest _ hfl _ _ _ _ => rw [hfl]; exact Nat.zero_le 1
    | flight item rest _ hfl _ _ _ => rw [hfl]; exact le_rfl

/-- The phase does not depend on a writer that neither is nor becomes the one that starts. -/
theorem Phase.setWriter {popped sent : List DataItem} {w : Writer} (h : Phase s popped stored sent)
    (hold : ∀ item, s.writer t ≠ .starting item) (hw : ∀ item, w ≠ .starting item) :
    Phase (s.setWriter t w) popped stored sent := by
  have hother : ∀ u item, (s.setWriter t w).writer u = .starting item → s.writer u = .starting item := by
    intro u item hu
    have hu : Function.update s.writer t w u = .starting item := hu
    by_cases hut : u = t
    · rw [hut, Function.update_self] at hu
      exact absurd hu (hw item)
    · rwa [Function.update_of_ne hut] at hu
  cases h with
  | idle ha hfl hno hsent => exact .idle ha hfl (fun u item hu => hno u item (hother u item hu)) hsent
  | starting u item rest ha hfl hu hone hst hsent =>
    have hut : u ≠ t := fun hut => hold item (hut ▸ hu)
    refine .starting u item rest ha hfl ?_ (fun v item hv => hone v item (hother v item hv)) hst hsent
    exact (Function.update_of_ne hut w s.writer).trans hu
  | flight item rest ha hfl hno hst hsent =>
    exact .flight item rest ha hfl (fun u item hu => hno u item (hother u item hu)) hst hsent

omit [DecidableEq T] in
/-- The phase does not depend on what is behind the head of the queue. -/
theorem Phase.push {popped sent new : List DataItem} {dq : DataQueue.State (Option T)}
    (h : Phase s popped stored sent) : Phase { s with dataQueue := dq } popped (stored ++ new) sent := by
  cases h with
  | idle ha hfl hno hsent => exact .idle ha hfl hno hsent
  | starting u item rest ha hfl hu hone hst hsent =>
    exact .starting u item (rest ++ new) ha hfl hu hone (by rw [hst]; rfl) hsent
  | flight item rest ha hfl hno hst hsent =>
    exact .flight item (rest ++ new) ha hfl hno (by rw [hst]; rfl) hsent

omit [DecidableEq T] in
/-- **A push** puts items behind the others, and takes none off. -/
theorem queue_push (h : Sent s g stored) {b : DataQueue.Act (Option T)} {dq : DataQueue.State (Option T)}
    (hcase : QueueCase s.dataQueue b dq) (hpop : s.dataQueue.pops b = false) (hok : DataQueue.KeepsItems s.dataQueue b) :
    ∃ new, Stored dq.queue (stored ++ new) ∧
      (DataQueue.log s.dataQueue b dq g.queue).pushed = g.queue.popped ++ (stored ++ new) ∧
      (DataQueue.log s.dataQueue b dq g.queue).popped = g.queue.popped := by
  have hret : s.dataQueue.returns b = none := by simp [DataQueue.State.returns, hpop]
  have hpopped : (DataQueue.log s.dataQueue b dq g.queue).popped = g.queue.popped := by
    simp [DataQueue.log, hret]
  obtain ⟨stored', hst, hfifo⟩ := hcase.keeps h.holds h.fifo hok
  have hpushed : (DataQueue.log s.dataQueue b dq g.queue).pushed = g.queue.pushed ++ (s.dataQueue.stores b).toList := rfl
  have hnew : stored' = stored ++ (s.dataQueue.stores b).toList := by
    rw [hpushed, hpopped, h.fifo, List.append_assoc] at hfifo
    exact (List.append_cancel_left hfifo).symm
  refine ⟨(s.dataQueue.stores b).toList, hnew ▸ hst, ?_, hpopped⟩
  rw [hfifo, hpopped, hnew]

/-- A step of a writer in `rt_data_queue_push`. -/
theorem Sent.pushes (h : Sent s g stored) {b : DataQueue.Act (Option T)} {dq : DataQueue.State (Option T)}
    (hcase : QueueCase s.dataQueue b dq) (hpop : s.dataQueue.pops b = false) (hok : DataQueue.KeepsItems s.dataQueue b)
    {w : Writer} (hold : ∀ item, s.writer t ≠ .starting item) (hw : ∀ item, w ≠ .starting item) :
    ∃ stored', Sent ({ s with dataQueue := dq }.setWriter t w)
      ⟨DataQueue.log s.dataQueue b dq g.queue, g.transmitted, g.completed⟩ stored' := by
  obtain ⟨new, hst, hfifo, hpopped⟩ := queue_push h hcase hpop hok
  refine ⟨stored ++ new, hst, by rw [hfifo, hpopped], ?_, h.complete⟩
  rw [hpopped]
  exact Phase.setWriter h.phase.push hold hw

theorem log_eq {q : DataQueue.Log} (hq : (log s a s' g).queue = q) (ht : s.transmits a = none)
    (hc : s.completes a = none) : log s a s' g = ⟨q, g.transmitted, g.completed⟩ := by
  have hl : log s a s' g = ⟨(log s a s' g).queue, g.transmitted ++ (s.transmits a).toList,
    g.completed ++ (s.completes a).toList⟩ := rfl
  rw [hl, hq, ht, hc]
  simp

theorem write_step (h : Sent s g stored) (hok : InTurn s (.write t item)) (hs : s.step (.write t item) = some s') :
    ∃ stored', Sent s' (log s (.write t item) s' g) stored' := by
  simp only [State.step] at hs
  split at hs
  · rename_i hidle
    cases hs
    rw [log_eq rfl rfl rfl]
    refine h.pushes (.of_push rfl rfl rfl) rfl hok (by rw [hidle]; nofun) ?_
    intro item
    split <;> nofun
  · cases hs

theorem resume_step (h : Sent s g stored) (hok : InTurn s (.resume t)) (hs : s.step (.resume t) = some s') :
    ∃ stored', Sent s' (log s (.resume t) s' g) stored' := by
  simp only [State.step] at hs
  split at hs
  · rename_i item item' timeout result hw hc
    have hpop : s.dataQueue.pops (.resume (some t)) = false := by simp [DataQueue.State.pops, hc]
    have hold : ∀ item, s.writer t ≠ .starting item := by
      rw [hw]
      simp
    split at hs
    · rename_i hr
      cases hs
      rw [log_eq rfl rfl rfl]
      refine h.pushes (.of_push (by simp [DataQueue.State.pushes, hc, hr]) hpop rfl) hpop hok hold ?_
      intro item
      split <;> simp
    · rename_i hr
      cases hs
      rw [log_eq rfl rfl rfl]
      have hcase : QueueCase s.dataQueue (.resume (some t)) (s.dataQueue.setCall (some t) .idle) :=
        .of_other (by simp [DataQueue.State.pushes, hc, hr]) hpop rfl
      exact h.pushes (w := .idle) hcase hpop hok hold (by simp)
  · cases hs

/-- The writer that finds the channel idle is at the head of the queue. -/
theorem test_step (h : Sent s g stored) (hok : InTurn s (.test t)) (hs : s.step (.test t) = some s') :
    Sent s' (log s (.test t) s' g) stored := by
  simp only [State.step] at hs
  split at hs
  · rename_i item hw
    have hold : ∀ item, s.writer t ≠ .starting item := by
      rw [hw]
      nofun
    rw [log_eq rfl rfl rfl]
    split at hs
    · cases hs
      exact ⟨h.holds, h.fifo, h.phase.setWriter hold nofun, h.complete⟩
    · rename_i hact
      cases hs
      have hact : s.activated = false := Bool.eq_false_iff.2 hact
      simp only [InTurn, hw] at hok
      obtain ⟨hne, hhead⟩ := hok hact
      obtain ⟨rest, hst, -⟩ := h.holds.get hne
      refine ⟨h.holds, h.fifo, ?_, h.complete⟩
      cases h.phase with
      | idle _ hfl hno hsent =>
        refine .starting t item rest rfl hfl (Function.update_self _ _ _) ?_ (hhead ▸ hst) hsent
        intro u item' hu
        by_contra hut
        have hu : Function.update s.writer t (.starting item) u = .starting item' := hu
        rw [Function.update_of_ne hut] at hu
        exact hno u item' hu
      | starting _ _ _ ha => exact absurd (ha.symm.trans hact) (by decide)
      | flight _ _ ha => exact absurd (ha.symm.trans hact) (by decide)
  · cases hs

theorem start_step (h : Sent s g stored) (hs : s.step (.start t) = some s') :
    Sent s' (log s (.start t) s' g) stored := by
  simp only [State.step] at hs
  split at hs
  · rename_i item hw
    cases hs
    have hsends : s.transmits (.start t) = some item := by simp [State.transmits, hw]
    have hlog : ∀ s', log s (.start t) s' g = ⟨g.queue, g.transmitted ++ [item], g.completed⟩ := by
      intro s'
      simp [log, State.queueAct, hsends, State.completes]
    rw [hlog]
    refine ⟨h.holds, h.fifo, ?_, h.complete⟩
    cases h.phase with
    | idle _ _ hno => exact absurd hw (hno t item)
    | starting u item' rest ha hfl hu hone hst hsent =>
      obtain rfl : t = u := hone t item hw
      obtain rfl : item = item' := Writer.starting.inj (hw.symm.trans hu)
      refine .flight item rest ha ?_ ?_ hst (by rw [hsent])
      · show s.inFlight ++ [item] = [item]
        rw [hfl]
        rfl
      · intro v item' hv
        have hv : Function.update s.writer t .idle v = .starting item' := hv
        by_cases hvt : v = t
        · rw [hvt, Function.update_self] at hv
          cases hv
        · rw [Function.update_of_ne hvt] at hv
          exact hvt (hone v item' hv)
    | flight _ _ _ _ hno => exact absurd hw (hno t item)
  · cases hs

/-- The buffer whose transfer has finished is taken off the queue, and the next one is sent. -/
theorem dmadone_step (h : Sent s g stored) (hs : s.step .dmadone = some s') :
    ∃ stored', Sent s' (log s .dmadone s' g) stored' := by
  simp only [State.step] at hs
  split at hs
  · cases hs
  · rename_i x more hfl
    cases hs
    cases h.phase with
    | idle _ hfl' => rw [hfl] at hfl'; cases hfl'
    | starting _ _ _ _ hfl' => rw [hfl] at hfl'; cases hfl'
    | flight item rest ha hfl' hno hst hsent =>
      rw [hfl] at hfl'
      obtain ⟨rfl, rfl⟩ := List.cons.inj hfl'
      have hne : s.dataQueue.queue.getIndex ≠ s.dataQueue.queue.putIndex := by
        rw [ne_eq, h.holds.empty, hst]
        exact List.cons_ne_nil x rest
      obtain ⟨rest', hst', hget⟩ := h.holds.get hne
      obtain ⟨hhead, rfl⟩ := List.cons.inj (hst.symm.trans hst')
      have hq : (s.dataQueue.pop none 0).queue = s.dataQueue.queue.get := by
        rw [DataQueue.pop_queue, if_neg hne]
      have hret : s.dataQueue.returns (.pop none 0) = some x := by
        rw [hhead]
        exact if_pos ⟨hne, rfl⟩
      have hdone : s.completes .dmadone = some (x, some x) := by simp [State.completes, hfl, hret]
      have hqueue : DataQueue.log s.dataQueue (.pop none 0) s.dataQueue g.queue =
          ⟨g.queue.pushed, g.queue.popped ++ [x]⟩ := by
        simp [DataQueue.log, hret, DataQueue.State.stores, DataQueue.State.pushes]
      have hlog : ∀ s' sends, s.transmits .dmadone = sends → log s .dmadone s' g =
          ⟨⟨g.queue.pushed, g.queue.popped ++ [x]⟩, g.transmitted ++ sends.toList, g.completed ++ [(x, some x)]⟩ := by
        rintro s' sends rfl
        rw [← hqueue]
        simp [log, State.queueAct, hdone, DataQueue.log]
      have hfifo : g.queue.pushed = g.queue.popped ++ [x] ++ rest := by rw [h.fifo, hst, List.append_assoc]; rfl
      have hcomplete : ∀ p ∈ g.completed ++ [(x, some x)], p.2 = some p.1 := by
        intro p hp
        rcases List.mem_append.1 hp with hp | hp
        · exact h.complete p hp
        · rw [List.mem_singleton.1 hp]
      refine ⟨rest, ?_⟩
      unfold State.dmadone
      by_cases hempty : s.dataQueue.queue.get.getIndex = s.dataQueue.queue.get.putIndex
      · have hsends : s.transmits .dmadone = none := by simp [State.transmits, hq, hempty]
        have hnil : rest = [] := hget.empty.1 hempty
        rw [hlog _ _ hsends]
        simp only [hq, if_pos hempty]
        refine ⟨hq ▸ hget, hfifo, .idle rfl rfl hno ?_, hcomplete⟩
        rw [hsent]
        exact List.append_nil _
      · have hsends : s.transmits .dmadone = some s.dataQueue.queue.get.head := by simp [State.transmits, hq, hempty]
        obtain ⟨last, hnext, -⟩ := hget.get hempty
        rw [hlog _ _ hsends]
        simp only [hq, if_neg hempty]
        refine ⟨hq ▸ hget, hfifo, .flight _ last rfl rfl hno hnext ?_, hcomplete⟩
        rw [hsent]
        rfl

theorem sent_step (h : Sent s g stored) (hok : InTurn s a) (hs : s.step a = some s') :
    ∃ stored', Sent s' (log s a s' g) stored' := by
  cases a with
  | write t item => exact write_step h hok hs
  | resume t => exact resume_step h hok hs
  | test t => exact ⟨stored, test_step h hok hs⟩
  | start t => exact ⟨stored, start_step h hs⟩
  | dmadone => exact dmadone_step h hs

/-- **DMA transmission sends every buffer once and in order**, in every run in which writers take their turn. -/
theorem sent_inOrder {s : State T} {g : Log} (h : Runs InTurn (s, g)) : InOrder s g := by
  obtain ⟨stored, hsent⟩ : ∃ stored, Sent s g stored := by
    refine Run.Reach.inv (I := fun p => ∃ stored, Sent p.1 p.2 stored) ?_ ?_ h
    · rintro ⟨s, g⟩ ⟨⟨pool, rfl⟩, rfl⟩
      exact ⟨[], .init pool 8 4, rfl, .idle rfl rfl (fun _ _ => nofun) rfl, nofun⟩
    · rintro ⟨s, g⟩ a ⟨s', g'⟩ ⟨stored, hsent⟩ hok ⟨hs, hlog⟩
      simp only at hsent hok hs hlog
      rw [hlog]
      exact sent_step hsent hok hs
  exact hsent.inOrder

/-- A channel, of which the pool of the queue has been cleared. -/
def opened (T : Type) : State T :=
  ⟨⟨DataQueue.rtDataQueueInit (fun _ => ⟨0, 0⟩) 8 4, [], [], fun _ => .idle⟩, false, fun _ => .idle, []⟩

/-- Two buffers are sent, of which the second is pushed while the first is in flight. -/
theorem sent_inOrder_two : ∃ (s : State Bool) (g : Log), Runs InTurn (s, g) ∧
    g.transmitted = [⟨0x20000000, 4⟩, ⟨0x20000100, 8⟩] ∧ InOrder s g := by
  obtain ⟨⟨s, g⟩, hr, h⟩ := Run.Reach.exec_logged (fun (s : State Bool) a => s.step a)
    (fun _ => (⟨⟨[], []⟩, [], []⟩ : Log)) log InTurn (show (opened Bool).Init from ⟨_, rfl⟩)
    [.write false ⟨0x20000000, 4⟩, .test false, .start false, .write true ⟨0x20000100, 8⟩, .test true, .dmadone]
    (fun p => decide (p.2.transmitted = [⟨0x20000000, 4⟩, ⟨0x20000100, 8⟩])) (by decide)
  exact ⟨s, g, hr, of_decide_eq_true h, sent_inOrder hr⟩

/-- **A buffer is sent in front of the one that was pushed before it**, by the writer that tests first. -/
theorem sent_outOfTurn : ∃ (s : State Bool) (g : Log), Runs Run.Any (s, g) ∧ ¬InOrder s g := by
  obtain ⟨⟨s, g⟩, hr, h⟩ := Run.Reach.exec_logged (fun (s : State Bool) a => s.step a)
    (fun _ => (⟨⟨[], []⟩, [], []⟩ : Log)) log Run.Any (show (opened Bool).Init from ⟨_, rfl⟩)
    [.write false ⟨0x20000000, 4⟩, .write true ⟨0x20000100, 8⟩, .test true, .start true]
    (fun p => decide (p.2.transmitted = [⟨0x20000100, 8⟩] ∧ p.2.queue.pushed = [⟨0x20000000, 4⟩, ⟨0x20000100, 8⟩]))
    (by decide)
  obtain ⟨hsent, hpushed⟩ := of_decide_eq_true h
  refine ⟨s, g, hr, fun hin => ?_⟩
  have hpre := hin.sent
  rw [hsent, hpushed] at hpre
  revert hpre
  decide

end RtThread.SerialTx
