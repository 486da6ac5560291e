import Mathlib.Data.List.Forall2
import RtThread.Lib.Chain
import RtThread.Proof.Waiting

/-!
# Message queues

* `MqParts`: the nodes of a queue are free, queued, or held by a call in progress; its operations move them.
* `Calls`: the calls in progress that hold a node.
* `mq_conserved`: **in every run**, the nodes are conserved, and the messages come out in the order in
  which they were linked, urgent ones first.
-/

namespace RtThread.Ipc

open Sched Kernel

variable {T O : Type} [DecidableEq T] [DecidableEq O] {cfg : Config} {s s' : Kernel T O} {c t u : T}
  {r : Kernel T O × Next O} {idle : T} {o : O} {a : Act T O} {g : MqLog} {mq : MessageQueue}
  {free queue held : List ℕ} {msg : ℕ}

/-! ## Nodes -/

/-- The nodes of the pool are free, queued or held. -/
structure MqParts (mq : MessageQueue) (free queue held : List ℕ) : Prop where
  freeChain : Chain mq.next mq.msgQueueFree free
  queueChain : Chain mq.next mq.msgQueueHead queue
  tail : mq.msgQueueTail = queue.getLast?
  parts : (free ++ queue ++ held).Perm (List.range mq.maxMsgs.toNat)

namespace MqParts

theorem nodup (h : MqParts mq free queue held) : (free ++ queue ++ held).Nodup :=
  h.parts.nodup_iff.2 List.nodup_range

/-- The order of the held nodes does not matter. -/
theorem perm (h : MqParts mq free queue held) {held' : List ℕ} (hp : held'.Perm held) :
    MqParts mq free queue held' :=
  { h with parts := (List.Perm.append_left _ hp).trans h.parts }

/-- A held node is neither free nor queued. -/
theorem not_held (h : MqParts mq free queue (msg :: held)) : msg ∉ free ∧ msg ∉ queue ∧ msg ∉ held := by
  have hnd : (msg :: (free ++ queue ++ held)).Nodup := (List.perm_middle.nodup_iff).1 h.nodup
  have hmsg := (List.nodup_cons.1 hnd).1
  simpa only [List.mem_append, not_or, and_assoc] using hmsg

/-- A node is taken off the free list. -/
theorem takeFree (h : MqParts mq free queue held) (hmsg : mq.msgQueueFree = some msg) :
    ∃ free', free = msg :: free' ∧
      MqParts { mq with msgQueueFree := mq.next msg } free' queue (msg :: held) := by
  obtain ⟨free', rfl, hc⟩ := Chain.of_some (hmsg ▸ h.freeChain)
  refine ⟨free', rfl, ⟨hc, h.queueChain, h.tail, ?_⟩⟩
  refine List.Perm.trans ?_ h.parts
  simp only [List.cons_append]
  exact List.perm_middle

/-- A held node is freed. -/
theorem putFree (h : MqParts mq free queue (msg :: held)) :
    MqParts { mq with next := Function.update mq.next msg mq.msgQueueFree, msgQueueFree := some msg }
      (msg :: free) queue held := by
  obtain ⟨hf, hq, -⟩ := h.not_held
  refine ⟨h.freeChain.push hf, (Chain.update hq).2 h.queueChain, h.tail, ?_⟩
  refine List.Perm.trans ?_ h.parts
  simp only [List.cons_append]
  exact List.perm_middle.symm

/-- A held node is linked behind the tail. -/
theorem append (h : MqParts mq free queue (msg :: held)) :
    MqParts (MessageQueue.append mq msg) free (queue ++ [msg]) held := by
  obtain ⟨hf, hq, -⟩ := h.not_held
  have hparts : (free ++ (queue ++ [msg]) ++ held).Perm (List.range mq.maxMsgs.toNat) := by
    refine List.Perm.trans (List.Perm.of_eq ?_) h.parts
    simp
  have htail := h.tail
  have hqueue := h.queueChain
  unfold MessageQueue.append
  rcases List.eq_nil_or_concat queue with rfl | ⟨q, t, rfl⟩
  · rw [show mq.msgQueueTail = none from htail]
    have hhead : mq.msgQueueHead = none := hqueue
    refine ⟨(Chain.update hf).2 h.freeChain, ?_, rfl, hparts⟩
    exact ⟨by rw [if_pos hhead], Function.update_self _ _ _⟩
  · rw [List.concat_eq_append] at htail hqueue hq hparts ⊢
    rw [List.getLast?_concat] at htail
    rw [htail]
    have hnd : (q ++ [t]).Nodup := by
      have := h.nodup
      rw [List.concat_eq_append] at this
      exact (List.nodup_append.1 (List.nodup_append.1 this).1).2.1
    have htf : t ∉ free := by
      have := h.nodup
      rw [List.concat_eq_append] at this
      intro ht
      exact (List.nodup_append.1 (List.nodup_append.1 this).1).2.2 t ht t
        (List.mem_append_right _ List.mem_cons_self) rfl
    have hhead : mq.msgQueueHead ≠ none := by
      intro hn
      rw [hn] at hqueue
      have := hqueue.of_none
      simp at this
    refine ⟨(Chain.update htf).2 ((Chain.update hf).2 h.freeChain), ?_, ?_, hparts⟩
    · rw [if_neg hhead, List.append_assoc]
      exact hqueue.append hnd hq
    · rw [List.getLast?_concat]

/-- A held node is linked before the head. -/
theorem prepend (h : MqParts mq free queue (msg :: held)) :
    MqParts (MessageQueue.prepend mq msg) free (msg :: queue) held := by
  obtain ⟨hf, hq, -⟩ := h.not_held
  refine ⟨(Chain.update hf).2 h.freeChain, h.queueChain.push hq, ?_, ?_⟩
  · have htail := h.tail
    show (if mq.msgQueueTail = none then some msg else mq.msgQueueTail) = _
    cases queue with
    | nil =>
      rw [if_pos (show mq.msgQueueTail = none from htail)]
      rfl
    | cons x q =>
      have hne : mq.msgQueueTail ≠ none := by
        rw [htail, List.getLast?_cons]
        nofun
      rw [if_neg hne, htail, List.getLast?_cons_cons]
  · refine List.Perm.trans ?_ h.parts
    simp only [List.append_assoc, List.cons_append]
    exact List.Perm.append_left _ List.perm_middle.symm

/-- The first message is taken off. -/
theorem takeOff (h : MqParts mq free queue held) (hmsg : mq.msgQueueHead = some msg) :
    ∃ queue', queue = msg :: queue' ∧ MqParts { mq with
      msgQueueHead := mq.next msg
      msgQueueTail := if mq.msgQueueTail = some msg then none else mq.msgQueueTail
      entry := mq.entry - 1 } free queue' (msg :: held) := by
  obtain ⟨queue', rfl, hc⟩ := Chain.of_some (hmsg ▸ h.queueChain)
  refine ⟨queue', rfl, ⟨h.freeChain, hc, ?_, ?_⟩⟩
  · have htail := h.tail
    show (if mq.msgQueueTail = some msg then none else mq.msgQueueTail) = _
    cases queue' with
    | nil =>
      rw [if_pos (show mq.msgQueueTail = some msg from htail)]
      rfl
    | cons y q =>
      rw [List.getLast?_cons_cons] at htail
      have hnd := (List.nodup_append.1 (List.nodup_append.1 h.nodup).1).2.1
      have hne : mq.msgQueueTail ≠ some msg := fun hm =>
        (List.nodup_cons.1 hnd).1 (List.mem_of_getLast? (htail.symm.trans hm))
      rw [if_neg hne, htail]
  · refine List.Perm.trans ?_ h.parts
    simp only [List.append_assoc, List.cons_append]
    exact List.Perm.append_left _ List.perm_middle

/-- **The queued nodes are freed.** -/
theorem drain {fuel : ℕ} (h : MqParts mq free queue held) (hf : queue.length ≤ fuel) :
    ∃ free' mq', MessageQueue.drain fuel mq = some mq' ∧ MqParts mq' free' [] held ∧
      mq'.maxMsgs = mq.maxMsgs ∧ mq'.msgSize = mq.msgSize ∧ mq'.bytes = mq.bytes := by
  induction fuel generalizing mq free queue with
  | zero =>
    obtain rfl : queue = [] := List.length_eq_zero_iff.1 (Nat.le_zero.1 hf)
    have hhead : mq.msgQueueHead = none := h.queueChain
    unfold MessageQueue.drain
    rw [hhead]
    exact ⟨free, mq, rfl, h, rfl, rfl, rfl⟩
  | succ fuel ih =>
    unfold MessageQueue.drain
    cases hhead : mq.msgQueueHead with
    | none =>
      obtain rfl : queue = [] := (hhead ▸ h.queueChain).of_none
      exact ⟨free, mq, rfl, h, rfl, rfl, rfl⟩
    | some msg =>
      obtain ⟨queue', rfl, hoff⟩ := h.takeOff hhead
      obtain ⟨free', mq', hd, hp, hmax, hsize, hbytes⟩ := @ih { mq with
          msgQueueHead := mq.next msg
          msgQueueTail := if mq.msgQueueTail = some msg then none else mq.msgQueueTail
          next := Function.update mq.next msg mq.msgQueueFree
          msgQueueFree := some msg } _ _ { hoff.putFree with } (Nat.le_of_succ_le_succ hf)
      exact ⟨free', mq', hd, hp, hmax, hsize, hbytes⟩

end MqParts

/-! ## Calls in progress -/

/-- The node of queue `o` that a call holds. -/
def Cont.node (o : O) : Cont O → Option ℕ
  | .mqLink o' msg _ _ | .mqFree o' msg _ => if o' = o then some msg else none
  | _ => none

/-- The call a thread is in. -/
def Pc.inCall : Pc O → Option (Cont O)
  | .user _ _ => none
  | .schedule k | .switched k | .cont k => some k

/-- The call that a section leaves in progress. -/
def Next.inCall : Next O → Option (Cont O)
  | .ret _ _ => none
  | .schedule k | .run k => some k

/-- A call, if it holds a node of queue `o`. -/
def holding (o : O) (k : Option (Cont O)) : Option (Cont O) := k.filter fun k => (k.node o).isSome

/-- The calls of threads and handlers that hold a node of queue `o`, one for each. -/
def Calls (o : O) (pc : T → Pc O) (handlers : List (Next O)) (calls : List (Cont O)) : Prop :=
  ∃ ts : List T, ts.Nodup ∧ (∀ t, t ∈ ts ↔ (holding o (pc t).inCall).isSome = true) ∧
    calls.Perm (ts.filterMap (fun t => holding o (pc t).inCall) ++
      handlers.filterMap fun n => holding o n.inCall)

namespace Calls

variable {pc : T → Pc O} {handlers : List (Next O)} {calls calls' : List (Cont O)} {p : Pc O} {n : Next O}

omit [DecidableEq T] in
theorem perm (h : Calls o pc handlers calls) (hp : calls'.Perm calls) : Calls o pc handlers calls' := by
  obtain ⟨ts, hnd, hts, hc⟩ := h
  exact ⟨ts, hnd, hts, hp.trans hc⟩

/-- **A thread goes on elsewhere.** -/
theorem move (h : Calls o pc handlers calls) (c : T) (p : Pc O) :
    ∃ rest, calls.Perm ((holding o (pc c).inCall).toList ++ rest) ∧
      Calls o (Function.update pc c p) handlers ((holding o p.inCall).toList ++ rest) := by
  obtain ⟨ts, hnd, hts, hc⟩ := h
  have hsame : (ts.erase c).filterMap (fun t => holding o (Function.update pc c p t).inCall) =
      (ts.erase c).filterMap fun t => holding o (pc t).inCall := by
    refine List.filterMap_congr fun t ht => ?_
    rw [Function.update_of_ne ((hnd.mem_erase_iff).1 ht).1]
  have hmem : ∀ t, t ≠ c → (t ∈ ts.erase c ↔
      (holding o (Function.update pc c p t).inCall).isSome = true) := fun t ht => by
    rw [hnd.mem_erase_iff, and_iff_right ht, hts, Function.update_of_ne ht]
  refine ⟨(ts.erase c).filterMap (fun t => holding o (pc t).inCall) ++
    handlers.filterMap fun n => holding o n.inCall, hc.trans ?_, ?_⟩
  · rw [← List.append_assoc]
    refine List.Perm.append_right _ ?_
    by_cases hcts : c ∈ ts
    · obtain ⟨k, hk⟩ := Option.isSome_iff_exists.1 ((hts c).1 hcts)
      refine ((List.perm_cons_erase hcts).filterMap _).trans ?_
      simp only [List.filterMap_cons, hk]
      rfl
    · have hnone : holding o (pc c).inCall = none := by
        rw [← Option.not_isSome_iff_eq_none, ← hts]
        exact hcts
      rw [List.erase_of_not_mem hcts, hnone]
      rfl
  · have hself : (Function.update pc c p) c = p := Function.update_self _ _ _
    cases hp : holding o p.inCall with
    | none =>
      refine ⟨ts.erase c, hnd.erase c, fun t => ?_, by rw [hsame]; rfl⟩
      by_cases ht : t = c
      · rw [ht, hself, hp]
        exact iff_of_false (fun hm => ((hnd.mem_erase_iff).1 hm).1 rfl) nofun
      · exact hmem t ht
    | some k =>
      refine ⟨c :: ts.erase c, List.nodup_cons.2 ⟨fun hm => ((hnd.mem_erase_iff).1 hm).1 rfl, hnd.erase c⟩,
        fun t => ?_, ?_⟩
      · by_cases ht : t = c
        · rw [ht, hself, hp]
          exact iff_of_true List.mem_cons_self rfl
        · rw [List.mem_cons, or_iff_right ht]
          exact hmem t ht
      · simp only [List.filterMap_cons, hself, hp, hsame]
        rfl

omit [DecidableEq T] in
/-- An interrupt handler is active. -/
theorem push (h : Calls o pc handlers calls) (n : Next O) :
    Calls o pc (n :: handlers) ((holding o n.inCall).toList ++ calls) := by
  obtain ⟨ts, hnd, hts, hc⟩ := h
  refine ⟨ts, hnd, hts, ?_⟩
  cases hn : holding o n.inCall with
  | none =>
    simp only [List.filterMap_cons, hn]
    exact hc
  | some k =>
    simp only [List.filterMap_cons, hn]
    exact (hc.cons k).trans List.perm_middle.symm

omit [DecidableEq T] in
/-- The innermost interrupt handler goes on. -/
theorem pop (h : Calls o pc (n :: handlers) calls) :
    ∃ rest, calls.Perm ((holding o n.inCall).toList ++ rest) ∧ Calls o pc handlers rest := by
  obtain ⟨ts, hnd, hts, hc⟩ := h
  refine ⟨_, hc.trans ?_, ⟨ts, hnd, hts, List.Perm.refl _⟩⟩
  cases hn : holding o n.inCall with
  | none =>
    simp only [List.filterMap_cons, hn]
    rfl
  | some k =>
    simp only [List.filterMap_cons, hn]
    exact List.perm_middle

end Calls

/-! ## Moves -/

/-- Node `n` has message `m`. -/
def MqHas (mq : MessageQueue) (n : ℕ) (m : List (BitVec 8)) : Prop :=
  m <+: mq.bytes n ∧ m.length ≤ mq.msgSize.toNat

/-- What a call in progress has got: a message that fits, or a node with its message. -/
def MqHolds (o : O) (mq : MessageQueue) (g : MqLog) : Cont O → Prop
  | .mqLink o' _ buffer _ => o' = o → buffer.length ≤ mq.msgSize.toNat
  | .mqFree o' msg _ => o' = o → ∃ m, g.taken msg = some m ∧ MqHas mq msg m
  | _ => True

/-- The queue represents its history. -/
structure MqData (o : O) (mq : MessageQueue) (g : MqLog) (free queue : List ℕ) (calls : List (Cont O)) :
    Prop where
  parts : MqParts mq free queue (calls.filterMap (Cont.node o))
  entry : mq.entry.toNat = queue.length
  queued : List.Forall₂ (MqHas mq) queue g.queue
  held : ∀ k ∈ calls, MqHolds o mq g k

/-- The queue with a message in node `msg`. -/
def MessageQueue.filled (mq : MessageQueue) (msg : ℕ) (buffer : List (BitVec 8)) : MessageQueue :=
  { mq with bytes := Function.update mq.bytes msg (buffer ++ (mq.bytes msg).drop buffer.length) }

/-- The queue after its first message was taken off. -/
def MessageQueue.takenOff (mq : MessageQueue) (msg : ℕ) : MessageQueue :=
  { mq with
    msgQueueHead := mq.next msg
    msgQueueTail := if mq.msgQueueTail = some msg then none else mq.msgQueueTail
    entry := mq.entry - 1 }

/-- The queue with a node freed. -/
def MessageQueue.freed (mq : MessageQueue) (msg : ℕ) : MessageQueue :=
  { mq with next := Function.update mq.next msg mq.msgQueueFree, msgQueueFree := some msg }

/-- What a section does to queue `o`, and the call that its thread or handler is in before and after. -/
inductive MqMove (o : O) (mq : MessageQueue) (g : MqLog) :
    Option (Cont O) → Option (Cont O) → MessageQueue → MqLog → Prop
  | same : MqMove o mq g none none mq g
  | takeFree {msg : ℕ} {buffer : List (BitVec 8)} {urgent : Bool} :
    mq.msgQueueFree = some msg → buffer.length ≤ mq.msgSize.toNat →
    MqMove o mq g none (some (.mqLink o msg buffer urgent)) { mq with msgQueueFree := mq.next msg } g
  | link {msg : ℕ} {buffer : List (BitVec 8)} {urgent : Bool} :
    MqMove o mq g (some (.mqLink o msg buffer urgent)) none
      (if urgent then Kernel.MessageQueue.prepend (mq.filled msg buffer) msg
        else Kernel.MessageQueue.append (mq.filled msg buffer) msg)
      { g with queue := if urgent then buffer :: g.queue else g.queue ++ [buffer] }
  | takeOff {msg size : ℕ} : mq.entry ≠ 0#16 → mq.msgQueueHead = some msg →
    MqMove o mq g none (some (.mqFree o msg size)) (mq.takenOff msg)
      { queue := g.queue.tail, taken := Function.update g.taken msg g.queue.head? }
  | putFree {msg size : ℕ} : MqMove o mq g (some (.mqFree o msg size)) none (mq.freed msg) g
  | reset {mq' : MessageQueue} : Kernel.MessageQueue.drain mq.maxMsgs.toNat mq = some mq' →
    MqMove o mq g none none { mq' with entry := 0#16 } { g with queue := [] }

theorem Cont.node_mqLink {buffer : List (BitVec 8)} {urgent : Bool} :
    Cont.node o (.mqLink o msg buffer urgent) = some msg := if_pos rfl

theorem Cont.node_mqFree {size : ℕ} : Cont.node o (.mqFree o msg size) = some msg := if_pos rfl

/-- What a call has got stays while its node does. -/
theorem MqHolds.congr {mq' : MessageQueue} {g' : MqLog} {k : Cont O} (h : MqHolds o mq g k)
    (hsize : mq'.msgSize = mq.msgSize)
    (hnode : ∀ n, k.node o = some n → mq'.bytes n = mq.bytes n ∧ g'.taken n = g.taken n) :
    MqHolds o mq' g' k := by
  cases k with
  | mqLink o' n buffer urgent =>
    intro ho
    rw [hsize]
    exact h ho
  | mqFree o' n size =>
    intro ho
    obtain ⟨m, hm, hp, hl⟩ := h ho
    obtain ⟨hb, ht⟩ := hnode n (if_pos ho)
    exact ⟨m, ht.trans hm, hb ▸ hp, hsize ▸ hl⟩
  | _ => trivial

/-- A node keeps its message while its bytes stay. -/
theorem MqHas.congr {mq' : MessageQueue} {n : ℕ} {m : List (BitVec 8)} (h : MqHas mq n m)
    (hsize : mq'.msgSize = mq.msgSize) (hb : mq'.bytes n = mq.bytes n) : MqHas mq' n m :=
  ⟨hb ▸ h.1, hsize ▸ h.2⟩

theorem MqHas.filled {n : ℕ} {m buffer : List (BitVec 8)} (h : MqHas mq n m) (hn : n ≠ msg) :
    MqHas (mq.filled msg buffer) n m :=
  h.congr rfl (Function.update_of_ne hn _ _)

theorem mqHas_filled {buffer : List (BitVec 8)} (h : buffer.length ≤ mq.msgSize.toNat) :
    MqHas (mq.filled msg buffer) msg buffer := by
  refine ⟨?_, h⟩
  rw [show (mq.filled msg buffer).bytes msg = _ from Function.update_self _ _ _]
  exact List.prefix_append _ _

theorem MqParts.length_lt (h : MqParts mq free queue (msg :: held)) :
    queue.length < mq.maxMsgs.toNat := by
  have := h.parts.length_eq
  simp only [List.length_append, List.length_cons, List.length_range] at this
  omega

/-- The nodes of other calls are other nodes. -/
theorem node_ne {rest : List (Cont O)} {k : Cont O} {n : ℕ}
    (h : msg ∉ rest.filterMap (Cont.node o)) (hk : k ∈ rest) (hn : k.node o = some n) : n ≠ msg := by
  rintro rfl
  exact h (List.mem_filterMap.2 ⟨k, hk, hn⟩)

/-- **Every move conserves the nodes and keeps the order.** -/
theorem MqMove.ok {x y : Option (Cont O)} {mq' : MessageQueue} {g' : MqLog} {rest : List (Cont O)}
    (hm : MqMove o mq g x y mq' g') (h : MqData o mq g free queue (x.toList ++ rest)) :
    ∃ free' queue', MqData o mq' g' free' queue' (y.toList ++ rest) := by
  cases hm with
  | same => exact ⟨free, queue, h⟩
  | @takeFree msg buffer urgent hfree hlen =>
    obtain ⟨free', rfl, hp⟩ := h.parts.takeFree hfree
    refine ⟨free', queue, ⟨?_, h.entry, h.queued, fun k hk => ?_⟩⟩
    · simp only [Option.toList_some, List.singleton_append, List.filterMap_cons, Cont.node_mqLink]
      exact hp
    · rcases List.mem_cons.1 hk with rfl | hk
      · exact fun _ => hlen
      · exact (h.held k hk).congr rfl fun n _ => ⟨rfl, rfl⟩
  | @link msg buffer urgent =>
    have hp := h.parts
    simp only [Option.toList_some, List.singleton_append, List.filterMap_cons, Cont.node_mqLink] at hp
    obtain ⟨-, hq, hr⟩ := hp.not_held
    have hbuf : buffer.length ≤ mq.msgSize.toNat := h.held _ List.mem_cons_self rfl
    have hlt := hp.length_lt
    have hentry : (mq.entry + 1).toNat = queue.length + 1 := by
      have := h.entry
      bv_omega
    have hp' : MqParts (mq.filled msg buffer) free queue (msg :: rest.filterMap (Cont.node o)) := { hp with }
    have hqueued : List.Forall₂ (MqHas (mq.filled msg buffer)) queue g.queue := by
      refine List.forall₂_iff_zip.2 ⟨h.queued.length_eq, fun hz => ?_⟩
      refine ((List.forall₂_iff_zip.1 h.queued).2 hz).filled ?_
      rintro rfl
      exact hq (List.of_mem_zip hz).1
    have hheld : ∀ k ∈ rest, MqHolds o (mq.filled msg buffer) g k := fun k hk =>
      (h.held k (List.mem_cons_of_mem _ hk)).congr rfl fun n hn =>
        ⟨Function.update_of_ne (node_ne hr hk hn) _ _, rfl⟩
    cases urgent with
    | true =>
      refine ⟨free, msg :: queue, ⟨hp'.prepend, hentry, .cons (mqHas_filled hbuf) hqueued, fun k hk => ?_⟩⟩
      exact (hheld k hk).congr rfl fun _ _ => ⟨rfl, rfl⟩
    | false =>
      refine ⟨free, queue ++ [msg], ⟨hp'.append, ?_, ?_, fun k hk => ?_⟩⟩
      · rw [List.length_append]
        exact hentry
      · exact List.rel_append hqueued (.cons (mqHas_filled hbuf) .nil)
      · exact (hheld k hk).congr rfl fun _ _ => ⟨rfl, rfl⟩
  | @takeOff msg size hentry hhead =>
    obtain ⟨queue', rfl, hp⟩ := h.parts.takeOff hhead
    obtain ⟨-, -, hr⟩ := hp.not_held
    obtain ⟨m, l, hm, hl, hg⟩ := List.forall₂_cons_left_iff.1 h.queued
    have htaken : Function.update g.taken msg g.queue.head? msg = some m := by
      rw [Function.update_self, hg]
      rfl
    refine ⟨free, queue', ⟨?_, ?_, by rw [hg]; exact hl, fun k hk => ?_⟩⟩
    · simp only [Option.toList_some, List.singleton_append, List.filterMap_cons, Cont.node_mqFree]
      exact hp
    · have := h.entry
      rw [List.length_cons] at this
      show (mq.entry - 1).toNat = _
      bv_omega
    · rcases List.mem_cons.1 hk with rfl | hk
      · exact fun _ => ⟨m, htaken, hm⟩
      · exact (h.held k hk).congr rfl fun n hn => ⟨rfl, Function.update_of_ne (node_ne hr hk hn) _ _⟩
  | @putFree msg size =>
    have hp := h.parts
    simp only [Option.toList_some, List.singleton_append, List.filterMap_cons, Cont.node_mqFree] at hp
    refine ⟨msg :: free, queue, ⟨hp.putFree, h.entry, h.queued, fun k hk => ?_⟩⟩
    exact (h.held k (List.mem_cons_of_mem _ hk)).congr rfl fun _ _ => ⟨rfl, rfl⟩
  | @reset mq₁ hd =>
    have hlen : queue.length ≤ mq.maxMsgs.toNat := by
      have := h.parts.parts.length_eq
      simp only [List.length_append, List.length_range] at this
      omega
    obtain ⟨free', mq', hd', hp, -, hsize, hbytes⟩ := h.parts.drain hlen
    rw [hd] at hd'
    cases hd'
    refine ⟨free', [], ⟨{ hp with }, rfl, .nil, fun k hk => ?_⟩⟩
    exact (h.held k hk).congr hsize fun n _ => ⟨congrFun hbytes n, rfl⟩

/-! ## Sections -/

/-- The history behind a section that links nothing and resets nothing. -/
def MqLog.after (o : O) (g : MqLog) : Next O → MqLog
  | .run (.mqFree o' msg _) =>
    if o' = o then { queue := g.queue.tail, taken := Function.update g.taken msg g.queue.head? } else g
  | _ => g

omit [DecidableEq T] in
theorem rtMqSend_move {buffer : List (BitVec 8)} {urgent : Bool} (h : s.rtMqSend o buffer urgent = some r) :
    MqMove o (s.mq o) g none (holding o r.2.inCall) (r.1.mq o) (g.after o r.2) := by
  unfold rtMqSend at h
  simp only at h
  split at h
  · cases h
  split at h
  · cases h
    exact .same
  rename_i hlen
  split at h
  · cases h
    exact .same
  · rename_i msg hmsg
    cases h
    have hy : holding o (Next.inCall (.run (.mqLink o msg buffer urgent))) = some (.mqLink o msg buffer urgent) := by
      simp [holding, Next.inCall, Cont.node_mqLink]
    rw [hy, show (s.setMq o _).mq o = _ from Function.update_self _ _ _]
    exact .takeFree hmsg (not_lt.1 hlen)

theorem mqRecvLoop_move {size : ℕ} {timeout : Time} (hi : s.sched.Inv cfg) (hc : s.sched.current = some c)
    (h : s.mqRecvLoop cfg c o size timeout = some r) :
    MqMove o (s.mq o) g none (holding o r.2.inCall) (r.1.mq o) (g.after o r.2) := by
  unfold mqRecvLoop at h
  simp only at h
  split at h
  · split at h
    · cases h
      exact .same
    · have hw := suspendOn_waits hi hc h
      rw [hw.next, hw.same]
      exact .same
  · rename_i hentry
    simp only [Option.bind_eq_bind, Option.bind_eq_some_iff, Option.pure_def, Option.some.injEq] at h
    obtain ⟨msg, hmsg, rfl⟩ := h
    have hy : holding o (Next.inCall (.run (.mqFree o msg size))) = some (.mqFree o msg size) := by
      simp [holding, Next.inCall, Cont.node_mqFree]
    have hg : g.after o (.run (.mqFree o msg size)) =
        { queue := g.queue.tail, taken := Function.update g.taken msg g.queue.head? } := if_pos rfl
    rw [hy, hg, show (s.setMq o _).mq o = _ from Function.update_self _ _ _]
    exact .takeOff hentry hmsg

theorem rtMqRecv_move {size : ℕ} {timeout : Time} (hi : s.sched.Inv cfg) (hc : s.sched.current = some c)
    (h : s.rtMqRecv cfg c o size timeout = some r) :
    MqMove o (s.mq o) g none (holding o r.2.inCall) (r.1.mq o) (g.after o r.2) := by
  unfold rtMqRecv at h
  split at h
  · cases h
  split at h
  · cases h
    exact .same
  · exact mqRecvLoop_move hi hc h

theorem mqRecvResumed_move {size : ℕ} {timeout elapsed : Time} (hi : s.sched.Inv cfg)
    (hc : s.sched.current = some c) (h : s.mqRecvResumed cfg c o size timeout elapsed = some r) :
    MqMove o (s.mq o) g none (holding o r.2.inCall) (r.1.mq o) (g.after o r.2) := by
  unfold mqRecvResumed at h
  simp only at h
  split at h
  · cases h
    exact .same
  · exact mqRecvLoop_move hi hc h

/-- The end of a send: a receiver is woken, if one waits. -/
theorem mqWake_ok {mq' : MessageQueue} (hi : s.sched.Inv cfg)
    (h : (if (s.setMq o mq').waiting (.messageQueue o) ≠ [] then
        (s.setMq o mq').resumeFirst cfg (.messageQueue o) (.ret .eok .none)
      else some (s.setMq o mq', .ret .eok .none)) = some r) :
    r.1.mq o = mq' ∧ holding o r.2.inCall = none := by
  split at h
  · obtain ⟨t, hw⟩ := resumeFirst_wakes (s := s.setMq o mq') hi h
    rw [hw.next, hw.same]
    exact ⟨Function.update_self _ _ _, rfl⟩
  · cases h
    exact ⟨Function.update_self _ _ _, rfl⟩

theorem mqLink_move {buffer : List (BitVec 8)} {urgent : Bool} (hi : s.sched.Inv cfg)
    (h : s.mqLink cfg o msg buffer urgent = some r) :
    MqMove o (s.mq o) g (some (.mqLink o msg buffer urgent)) (holding o r.2.inCall) (r.1.mq o)
      { g with queue := if urgent then buffer :: g.queue else g.queue ++ [buffer] } := by
  obtain ⟨hmq, hy⟩ := mqWake_ok hi h
  rw [hmq, hy]
  exact .link

omit [DecidableEq T] in
theorem mqFree_move {size : ℕ} :
    MqMove o (s.mq o) g (some (.mqFree o msg size)) (holding o (s.mqFree o msg size).2.inCall)
      ((s.mqFree o msg size).1.mq o) g := by
  unfold mqFree
  rw [show (s.setMq o _).mq o = _ from Function.update_self _ _ _]
  exact .putFree

theorem mqReset_move (h : s.mqReset cfg o = some r) :
    MqMove o (s.mq o) g none (holding o r.2.inCall) (r.1.mq o) { g with queue := [] } := by
  unfold mqReset at h
  simp only [Option.bind_eq_bind, Option.bind_eq_some_iff, Option.pure_def, Option.some.injEq] at h
  obtain ⟨x, -, mq', hd, rfl⟩ := h
  rw [show (Kernel.setMq _ o _).mq o = _ from Function.update_self _ _ _]
  exact .reset hd

/-! ## Steps -/

/-- The call that the section of an action leaves in progress. -/
def Kernel.leaves (cfg : Config) (s : Kernel T O) (a : Act T O) : Option (Cont O) :=
  (s.ran cfg a).bind fun r => r.2.inCall

omit [DecidableEq O] in
theorem Next.pc_inCall (n : Next O) : n.pc.inCall = n.inCall := by cases n <;> rfl

theorem Cont.pc_holding (k : Cont O) : holding o k.pc.inCall = holding o (some k) := by
  cases k <;> rfl

theorem holding_away {k : Cont O} (h : .messageQueue o ∉ k.lists) : holding o (some k) = none := by
  cases k with
  | mqLink o' n buffer urgent | mqFree o' n size =>
    have : o' ≠ o := by
      rintro rfl
      exact h List.mem_cons_self
    simp [holding, Cont.node, this]
  | _ => rfl

omit [DecidableEq T] in
/-- An interrupt handler returns, or is active still. -/
theorem Calls.handled {calls : List (Cont O)} (h : Calls o r.1.pc r.1.handlers calls) :
    Calls o (handled r).pc (handled r).handlers ((holding o r.2.inCall).toList ++ calls) := by
  unfold Kernel.handled
  cases hr : r.2 with
  | ret e out => exact h
  | schedule k | run k => exact h.push _

theorem ran_timeout (hi : s.sched.Inv cfg) (h : s.ran cfg (.isr (.timeout t)) = some r) :
    r.2 = .ret .eok .none := by
  obtain ⟨c, -, h⟩ := Option.bind_eq_some_iff.1 h
  obtain ⟨-, -, rfl, -⟩ := timeout_frame (c := c) hi h
  rfl

theorem ran_isrSchedule {handlers : List (Next O)} {e : Err} {out : Out}
    (hh : s.handlers = .schedule (.ret e out) :: handlers) (h : s.ran cfg .isrCont = some r) :
    r.2 = .ret e out := by
  simp only [ran, hh, isrResume, Option.bind_eq_bind, Option.bind_eq_some_iff, Option.pure_def,
    Option.some.injEq] at h
  obtain ⟨x, -, rfl⟩ := h
  rfl

/-- A section leaves its call on the object it is on. -/
theorem ran_lists (hq : Sound cfg idle s) (hs : s.step cfg idle a = some s') (h : s.ran cfg a = some r) :
    ∀ q ∈ r.2.lists, q ∈ a.lists s := by
  cases step_cases hq.inv hq.user hs with
  | boot | start | schedule | switched | signalEntry => cases h
  | @call a c e out r' hc hh hidle hpc hr hcd =>
    have hran : s.ran cfg (.call a) = some r' := by simp [ran, hc, hr]
    cases hran.symm.trans h
    exact hcd.lists
  | @cont c k elapsed r' hc hh hidle hpc hr hf =>
    have hran : s.ran cfg (.cont elapsed) = some r' := by simp [ran, hc, hpc, hr]
    cases hran.symm.trans h
    rw [Act.lists_cont hc hpc]
    exact hf.lists
  | timeout =>
    rw [ran_timeout hq.inv h]
    nofun
  | @isr i c r' hc ht hr hf =>
    have hran : s.ran cfg (.isr i) = some r' := by simp [ran, hc, hr]
    cases hran.symm.trans h
    exact hf.lists
  | isrSchedule hh =>
    rw [ran_isrSchedule hh h]
    nofun
  | @isrCont handlers k r' hh hr hf =>
    have hran : s.ran cfg .isrCont = some r' := by simp [ran, hh, hr]
    cases hran.symm.trans h
    rw [Act.lists_isrCont hh]
    exact (hf idle).lists

/-- **The calls in progress follow the sections.** -/
theorem calls_step {calls : List (Cont O)} (hq : Sound cfg idle s) (hs : s.step cfg idle a = some s')
    (h : Calls o s.pc s.handlers calls) : ∃ rest,
      calls.Perm ((holding o (s.goesOn a)).toList ++ rest) ∧
      Calls o s'.pc s'.handlers ((holding o (s.leaves cfg a)).toList ++ rest) := by
  cases step_cases hq.inv hq.user hs with
  | boot hc hx => exact ⟨calls, List.Perm.refl _, h⟩
  | start hc hidle hx => exact ⟨calls, List.Perm.refl _, h⟩
  | @call a c e out r hc hh hidle hpc hr hcd =>
    have hy : s.leaves cfg (.call a) = r.2.inCall := by simp [leaves, ran, hc, hr]
    obtain ⟨rest, hp, hrest⟩ := h.move c r.2.pc
    rw [hpc] at hp
    rw [hy]
    refine ⟨rest, hp, ?_⟩
    show Calls o (Function.update r.1.pc c r.2.pc) r.1.handlers _
    rw [hcd.frame.pc, hcd.frame.off.handlers, ← Next.pc_inCall]
    exact hrest
  | @schedule c k x hc hh hpc hix hre =>
    have hsame : ∀ p : Pc O, holding o p.inCall = holding o (some k) →
        Calls o (Function.update s.pc c p) s.handlers calls := by
      intro p hpk
      obtain ⟨rest, hp, hrest⟩ := h.move c p
      rw [hpc] at hp
      rw [hpk] at hrest
      exact hrest.perm hp
    refine ⟨calls, List.Perm.refl _, ?_⟩
    show Calls o (Function.update s.pc c (if x.current = some c then k.pc else .switched k)) s.handlers calls
    split
    · exact hsame _ (Cont.pc_holding k)
    · exact hsame _ rfl
  | @switched c k s₁ hc hh hpc hd =>
    obtain ⟨rest, hp, hrest⟩ := h.move c k.pc
    rw [hpc] at hp
    rw [Cont.pc_holding] at hrest
    refine ⟨calls, List.Perm.refl _, ?_⟩
    show Calls o (Function.update s₁.pc c k.pc) s₁.handlers calls
    rw [hd.frame.pc, hd.frame.off.handlers]
    exact hrest.perm hp
  | signalEntry hc hh hd =>
    refine ⟨calls, List.Perm.refl _, ?_⟩
    rw [hd.frame.pc, hd.frame.off.handlers]
    exact h
  | @cont c k elapsed r hc hh hidle hpc hr hf =>
    have hx : s.goesOn (.cont elapsed) = some k := by simp [goesOn, hc, hpc]
    have hy : s.leaves cfg (.cont elapsed) = r.2.inCall := by simp [leaves, ran, hc, hpc, hr]
    obtain ⟨rest, hp, hrest⟩ := h.move c r.2.pc
    rw [hpc] at hp
    rw [hx, hy]
    refine ⟨rest, hp, ?_⟩
    show Calls o (Function.update r.1.pc c r.2.pc) r.1.handlers _
    rw [hf.frame.pc, hf.frame.off.handlers, ← Next.pc_inCall]
    exact hrest
  | @timeout c t x₁ x hc hst hf hother hsig hln hix hre =>
    have hy : s.leaves cfg (.isr (.timeout t)) = none := by
      refine Option.bind_eq_none_iff.2 fun r hr => ?_
      rw [ran_timeout hq.inv hr]
      rfl
    rw [hy]
    exact ⟨calls, List.Perm.refl _, h⟩
  | @isr i c r hc ht hr hf =>
    have hy : s.leaves cfg (.isr i) = r.2.inCall := by simp [leaves, ran, hc, hr]
    rw [hy]
    refine ⟨calls, List.Perm.refl _, Calls.handled ?_⟩
    rw [hf.frame.pc, hf.frame.off.handlers]
    exact h
  | @isrSchedule handlers e out x hh hix hre =>
    have hx : s.goesOn .isrCont = none := by simp [goesOn, hh]
    have hy : s.leaves cfg .isrCont = none := by
      refine Option.bind_eq_none_iff.2 fun r hr => ?_
      rw [ran_isrSchedule hh hr]
      rfl
    rw [hh] at h
    obtain ⟨rest, hp, hrest⟩ := h.pop
    rw [hx, hy]
    exact ⟨rest, hp, hrest⟩
  | @isrCont handlers k r hh hr hf =>
    have hx : s.goesOn .isrCont = some k := by simp [goesOn, hh]
    have hy : s.leaves cfg .isrCont = r.2.inCall := by simp [leaves, ran, hh, hr]
    rw [hh] at h
    obtain ⟨rest, hp, hrest⟩ := h.pop
    rw [hx, hy]
    refine ⟨rest, hp, Calls.handled ?_⟩
    rw [(hf idle).off.pc, (hf idle).off.handlers]
    exact hrest

theorem mqLog_link {buffer : List (BitVec 8)} {urgent : Bool} (h : s.goesOn a = some (.mqLink o msg buffer urgent)) :
    mqLog cfg o s a s' g = { g with queue := if urgent then buffer :: g.queue else g.queue ++ [buffer] } := by
  unfold mqLog
  rw [h]
  exact if_pos rfl

/-- The history behind any other section. -/
theorem mqLog_after (hlink : ∀ o' n buffer urgent, s.goesOn a ≠ some (.mqLink o' n buffer urgent))
    (hreset : ∀ o', a ≠ .call (.mqReset o')) (hran : s.ran cfg a = some r) :
    mqLog cfg o s a s' g = g.after o r.2 := by
  unfold mqLog
  split
  · rename_i hk
    exact absurd hk (hlink _ _ _ _)
  · split
    · exact absurd rfl (hreset _)
    · rw [hran]
      obtain ⟨s₁, n⟩ := r
      cases n with
      | run k => cases k <;> rfl
      | _ => rfl

theorem mqLog_away (hq : Sound cfg idle s) (hs : s.step cfg idle a = some s') (h : .messageQueue o ∉ a.lists s) :
    mqLog cfg o s a s' g = g := by
  unfold mqLog
  split
  · rename_i hk
    refine if_neg ?_
    rintro rfl
    rw [lists_of_goesOn hk] at h
    exact h List.mem_cons_self
  · split
    · refine if_neg ?_
      rintro rfl
      exact h List.mem_cons_self
    · split
      · rename_i hran
        obtain ⟨r, hr, hn⟩ := Option.map_eq_some_iff.1 hran
        refine if_neg ?_
        rintro rfl
        refine h (ran_lists hq hs hr _ ?_)
        rw [hn]
        exact List.mem_cons_self
      · rfl

/-- **The moves of a step.** -/
theorem mq_move (hq : Sound cfg idle s) (hs : s.step cfg idle a = some s') :
    MqMove o (s.mq o) g (holding o (s.goesOn a)) (holding o (s.leaves cfg a)) (s'.mq o)
      (mqLog cfg o s a s' g) := by
  by_cases hW : .messageQueue o ∈ a.lists s
  swap
  · have hx : holding o (s.goesOn a) = none := by
      cases hk : s.goesOn a with
      | none => rfl
      | some k => exact holding_away (lists_of_goesOn hk ▸ hW)
    have hy : holding o (s.leaves cfg a) = none := by
      cases hk : s.leaves cfg a with
      | none => rfl
      | some k =>
        obtain ⟨r, hr, hn⟩ := Option.bind_eq_some_iff.1 hk
        refine holding_away fun hmem => hW (ran_lists hq hs hr _ ?_)
        cases hr2 : r.2 with
        | ret e out =>
          rw [hr2] at hn
          cases hn
        | schedule k' | run k' =>
          rw [hr2] at hn
          cases hn
          exact hmem
    rw [mqLog_away hq hs hW, hx, hy, (objects_step hq hs).mq o hW]
    exact .same
  cases step_cases hq.inv hq.user hs with
  | @call a c e out r hc hh hidle hpc hr hcd =>
    have hran : s.ran cfg (.call a) = some r := by simp [ran, hc, hr]
    have hy : s.leaves cfg (.call a) = r.2.inCall := by simp [leaves, hran]
    rw [hy]
    cases a with
    | mqSend o' buffer =>
      obtain rfl : o = o' := by simpa [Act.lists, Call.lists] using hW
      rw [mqLog_after (by simp [goesOn]) (by simp) hran]
      exact rtMqSend_move hr
    | mqUrgent o' buffer =>
      obtain rfl : o = o' := by simpa [Act.lists, Call.lists] using hW
      rw [mqLog_after (by simp [goesOn]) (by simp) hran]
      exact rtMqSend_move hr
    | mqRecv o' size timeout =>
      obtain rfl : o = o' := by simpa [Act.lists, Call.lists] using hW
      rw [mqLog_after (by simp [goesOn]) (by simp) hran]
      exact rtMqRecv_move hq.inv hc hr
    | mqReset o' =>
      obtain rfl : o = o' := by simpa [Act.lists, Call.lists] using hW
      rw [show mqLog cfg o s (.call (.mqReset o)) (after c r) g = { g with queue := [] } from if_pos rfl]
      exact mqReset_move hr
    | _ => exact absurd hW (by simp [Act.lists, Call.lists])
  | @cont c k elapsed r hc hh hidle hpc hr hf =>
    rw [Act.lists_cont hc hpc] at hW
    have hx : s.goesOn (.cont elapsed) = some k := by simp [goesOn, hc, hpc]
    have hran : s.ran cfg (.cont elapsed) = some r := by simp [ran, hc, hpc, hr]
    have hy : s.leaves cfg (.cont elapsed) = r.2.inCall := by simp [leaves, hran]
    rw [hx, hy]
    cases k with
    | mqLink o' n buffer urgent =>
      obtain rfl : o = o' := by simpa [Cont.lists] using hW
      rw [mqLog_link hx, show holding o (some (.mqLink o n buffer urgent)) = some (.mqLink o n buffer urgent) by
        simp [holding, Cont.node_mqLink]]
      exact mqLink_move hq.inv hr
    | mqRecv o' size timeout =>
      obtain rfl : o = o' := by simpa [Cont.lists] using hW
      rw [mqLog_after (by rw [hx]; simp) (by simp) hran]
      exact mqRecvResumed_move hq.inv hc hr
    | mqFree o' n size =>
      obtain rfl : o = o' := by simpa [Cont.lists] using hW
      cases hr
      rw [mqLog_after (by rw [hx]; simp) (by simp) hran,
        show holding o (some (.mqFree o n size)) = some (.mqFree o n size) by simp [holding, Cont.node_mqFree]]
      exact mqFree_move
    | _ => exact absurd hW (by simp [Cont.lists])
  | @isr i c r hc ht hr hf =>
    have hran : s.ran cfg (.isr i) = some r := by simp [ran, hc, hr]
    have hy : s.leaves cfg (.isr i) = r.2.inCall := by simp [leaves, hran]
    obtain ⟨l, hl⟩ := handled_eq r
    rw [hy, hl]
    cases i with
    | mqSend o' buffer =>
      obtain rfl : o = o' := by simpa [Act.lists, Isr.lists] using hW
      rw [mqLog_after (by simp [goesOn]) (by simp) hran]
      exact rtMqSend_move hr
    | mqUrgent o' buffer =>
      obtain rfl : o = o' := by simpa [Act.lists, Isr.lists] using hW
      rw [mqLog_after (by simp [goesOn]) (by simp) hran]
      exact rtMqSend_move hr
    | mqRecv o' size =>
      obtain rfl : o = o' := by simpa [Act.lists, Isr.lists] using hW
      rw [mqLog_after (by simp [goesOn]) (by simp) hran]
      exact rtMqRecv_move hq.inv hc hr
    | _ => exact absurd hW (by simp [Act.lists, Isr.lists])
  | timeout => exact absurd hW (by simp [Act.lists, Isr.lists])
  | isrSchedule hh => exact absurd hW (by simp [Act.lists_isrCont hh, Next.lists, Cont.lists])
  | @isrCont handlers k r hh hr hf =>
    rw [Act.lists_isrCont hh] at hW
    have hx : s.goesOn .isrCont = some k := by simp [goesOn, hh]
    have hran : s.ran cfg .isrCont = some r := by simp [ran, hh, hr]
    have hy : s.leaves cfg .isrCont = r.2.inCall := by simp [leaves, hran]
    obtain ⟨l, hl⟩ := handled_eq r
    rw [hx, hy, hl]
    cases k with
    | mqLink o' n buffer urgent =>
      obtain rfl : o = o' := by simpa [Next.lists, Cont.lists] using hW
      rw [mqLog_link hx, show holding o (some (.mqLink o n buffer urgent)) = some (.mqLink o n buffer urgent) by
        simp [holding, Cont.node_mqLink]]
      exact mqLink_move (s := { s with handlers }) hq.inv hr
    | mqFree o' n size =>
      obtain rfl : o = o' := by simpa [Next.lists, Cont.lists] using hW
      cases hr
      rw [mqLog_after (by rw [hx]; simp) (by simp) hran,
        show holding o (some (.mqFree o n size)) = some (.mqFree o n size) by simp [holding, Cont.node_mqFree]]
      exact mqFree_move (s := { s with handlers })
    | mqRecv => cases hr
    | _ => exact absurd hW (by simp [Next.lists, Cont.lists])
  | _ => exact absurd hW (by simp [Act.lists])

/-! ## Runs -/

theorem MqData.perm {calls calls' : List (Cont O)} (h : MqData o mq g free queue calls)
    (hp : calls'.Perm calls) : MqData o mq g free queue calls' where
  parts := h.parts.perm (hp.filterMap _)
  entry := h.entry
  queued := h.queued
  held := fun k hk => h.held k (hp.mem_iff.1 hk)

/-- Queue `o` and the calls on it. -/
def MqInv (o : O) (s : Kernel T O) (g : MqLog) : Prop :=
  ∃ free queue calls, Calls o s.pc s.handlers calls ∧ MqData o (s.mq o) g free queue calls

theorem chain_mqInitFree (n : ℕ) : Chain (mqInitFree n).2 (mqInitFree n).1 (List.range n).reverse := by
  induction n with
  | zero => rfl
  | succ n ih =>
    rw [List.range_succ, List.reverse_append]
    exact Chain.push ih (by simp)

omit [DecidableEq T] in
theorem MqInv.of_init (h : s.Init cfg) : MqInv o s ⟨[], fun _ => none⟩ := by
  obtain ⟨flag, msgSize, maxMsgs, bytes, hmq⟩ := h.mq o
  refine ⟨(List.range maxMsgs.toNat).reverse, [], [], ⟨[], List.nodup_nil, fun t => ?_, ?_⟩, ?_⟩
  · rw [h.pc]
    exact iff_of_false List.not_mem_nil nofun
  · rw [h.handlers]
    rfl
  · rw [hmq]
    refine ⟨⟨chain_mqInitFree _, rfl, rfl, ?_⟩, rfl, .nil, nofun⟩
    show ((List.range maxMsgs.toNat).reverse ++ [] ++ []).Perm (List.range maxMsgs.toNat)
    rw [List.append_nil, List.append_nil]
    exact List.reverse_perm _

/-- **Every step keeps the queue.** -/
theorem mq_step (hq : Sound cfg idle s) (hs : s.step cfg idle a = some s') (h : MqInv o s g) :
    MqInv o s' (mqLog cfg o s a s' g) := by
  obtain ⟨free, queue, calls, hc, hd⟩ := h
  obtain ⟨rest, hp, hrest⟩ := calls_step hq hs hc
  obtain ⟨free', queue', hd'⟩ := (mq_move hq hs).ok (hd.perm hp.symm)
  exact ⟨free', queue', _, hrest, hd'⟩

/-- A call that goes on is in progress. -/
theorem Calls.mem {calls : List (Cont O)} {k : Cont O} {n : ℕ} (h : Calls o s.pc s.handlers calls)
    (hk : s.goesOn a = some k) (hn : k.node o = some n) : k ∈ calls := by
  have hold : holding o (some k) = some k := by simp [holding, hn]
  cases a with
  | cont elapsed =>
    obtain ⟨c, hc, hk⟩ := Option.bind_eq_some_iff.1 hk
    split at hk
    · rename_i k' hpc
      cases hk
      obtain ⟨rest, hp, -⟩ := h.move c (.user .eok .none)
      rw [hpc, show (Pc.cont k).inCall = some k from rfl, hold] at hp
      exact hp.mem_iff.2 List.mem_cons_self
    · cases hk
  | isrCont =>
    simp only [goesOn] at hk
    split at hk
    · rename_i k' handlers hh
      cases hk
      rw [hh] at h
      obtain ⟨rest, hp, -⟩ := h.pop
      rw [show (Next.run k).inCall = some k from rfl, hold] at hp
      exact hp.mem_iff.2 List.mem_cons_self
    · cases hk
  | _ => cases hk

/-- A receiver copies the message it took off. -/
theorem outcome_mqFree {size : ℕ} (h : s.goesOn a = some (.mqFree o msg size)) :
    s.outcome cfg a =
      some (.eok, .bytes (((s.mq o).bytes msg).take (min size (s.mq o).msgSize.toNat))) := by
  cases a with
  | cont elapsed =>
    obtain ⟨c, hc, hk⟩ := Option.bind_eq_some_iff.1 h
    split at hk
    · rename_i k hpc
      cases hk
      simp only [outcome, ran, hc, hpc, Option.bind_some]
      rfl
    · cases hk
  | isrCont =>
    simp only [goesOn] at h
    split at h
    · rename_i k handlers hh
      cases h
      simp only [outcome, ran, hh]
      rfl
    · cases h
  | _ => cases h

/-- What a receiver copies begins with its message. -/
theorem MqHas.take {m : List (BitVec 8)} (h : MqHas mq msg m) (size : ℕ) :
    m.take size <+: (mq.bytes msg).take (min size mq.msgSize.toNat) := by
  have hm : m.take size = m.take (min size mq.msgSize.toNat) := by
    rw [← List.take_take, List.take_of_length_le h.2]
  rw [hm]
  exact h.1.take _

/-- **A message queue conserves its nodes and its messages**, in every run: each node is free, queued or
held by one call in progress; the count and the tail are right; the queued nodes have the messages
that were linked and not taken off, in their order; and a receiver gets the message it took off. -/
theorem mq_conserved {p : Kernel T O × MqLog}
    (h : LogRuns cfg idle (fun _ _ => True) (fun _ => ⟨[], fun _ => none⟩) (mqLog cfg o) p) :
    (∃ free queue calls, Calls o p.1.pc p.1.handlers calls ∧
      MqParts (p.1.mq o) free queue (calls.filterMap (Cont.node o)) ∧
      (p.1.mq o).entry.toNat = queue.length ∧
      List.Forall₂ (fun n m => m <+: (p.1.mq o).bytes n) queue p.2.queue) ∧
    ∀ a msg size b, p.1.goesOn a = some (.mqFree o msg size) →
      p.1.outcome cfg a = some (.eok, .bytes b) → ∃ m, p.2.taken msg = some m ∧ m.take size <+: b := by
  have hinv : MqInv o p.1 p.2 :=
    h.inv_sound (I := fun s g => MqInv o s g) (fun _ hs => .of_init hs)
      fun _ _ _ _ hq hg _ hs => mq_step hq hs hg
  obtain ⟨free, queue, calls, hc, hd⟩ := hinv
  refine ⟨⟨free, queue, calls, hc, hd.parts, hd.entry, hd.queued.imp fun _ _ hm => hm.1⟩, ?_⟩
  intro a msg size b hk hout
  obtain ⟨m, hm, hhas⟩ := hd.held _ (hc.mem hk Cont.node_mqFree) rfl
  refine ⟨m, hm, ?_⟩
  rw [outcome_mqFree hk, Option.some.injEq, Prod.mk.injEq, Out.bytes.injEq] at hout
  exact hout.2 ▸ hhas.take size

/-- A message is queued, an interrupt handler sends an urgent one, and a receiver has taken that one off. -/
theorem mq_conserved_two : ∃ p : Kernel ℕ Unit × MqLog,
    (p.2.queue = [[1#8]] ∧ p.1.outcome board (.cont 0) = some (.eok, .bytes [2#8])) ∧
    (∃ free queue calls, Calls () p.1.pc p.1.handlers calls ∧
      MqParts (p.1.mq ()) free queue (calls.filterMap (Cont.node ())) ∧
      (p.1.mq ()).entry.toNat = queue.length ∧
      List.Forall₂ (fun n m => m <+: (p.1.mq ()).bytes n) queue p.2.queue) ∧
    ∀ a msg size b, p.1.goesOn a = some (.mqFree () msg size) →
      p.1.outcome board a = some (.eok, .bytes b) → ∃ m, p.2.taken msg = some m ∧ m.take size <+: b := by
  obtain ⟨p, hp, h⟩ := Run.Reach.exec_logged (fun s a => s.step board 255 a) (fun _ => ⟨[], fun _ => none⟩)
    (mqLog board ()) (fun _ _ => True) (Kernel.onBoard_init Unit)
    [.boot 255, .boot 1, .start, .call (.mqSend () [1#8]), .cont 0, .isr (.mqUrgent () [2#8]), .isrCont,
      .call (.mqRecv () 4 0)]
    (fun p => decide (p.2.queue = [[1#8]] ∧ p.1.outcome board (.cont 0) = some (.eok, .bytes [2#8])))
    (by decide)
  exact ⟨p, of_decide_eq_true h, mq_conserved hp⟩

end RtThread.Ipc
