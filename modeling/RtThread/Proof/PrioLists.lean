import RtThread.Spec.PrioQueue
import RtThread.Proof.ReadyBits

/-!
# The lists of a priority queue

What `_do_push` and `_do_pop` do to the lists and the bitmap, as operations on the queued items in the order of their
pushes.

* `Lists.doPush`: **`_do_push` puts an item behind all others.**
* `Lists.doPop`: **`_do_pop` takes the oldest item of the smallest priority number.**
-/

namespace RtThread.PrioQueue

open Sched Bits

variable {D : Type} {que que' : Queue D} {l l₁ l₂ : List (Entry D)} {e : Entry D} {prio item : ℕ}

/-! ## The lists -/

/-- The blocks of the items of a priority, in their order. -/
def blocks (l : List (Entry D)) (p : ℕ) : List ℕ := (l.filter (·.prio = p)).map Entry.item

theorem blocks_append (l₁ l₂ : List (Entry D)) (p : ℕ) : blocks (l₁ ++ l₂) p = blocks l₁ p ++ blocks l₂ p := by
  unfold blocks
  rw [List.filter_append, List.map_append]

theorem blocks_cons_self (e : Entry D) (l : List (Entry D)) : blocks (e :: l) e.prio = e.item :: blocks l e.prio := by
  unfold blocks
  rw [List.filter_cons_of_pos (by simp), List.map_cons]

theorem blocks_cons_ne {p : ℕ} (h : e.prio ≠ p) (l : List (Entry D)) : blocks (e :: l) p = blocks l p := by
  unfold blocks
  rw [List.filter_cons_of_neg (by simpa using h)]

theorem blocks_nil_of {p : ℕ} (h : ∀ e ∈ l, e.prio ≠ p) : blocks l p = [] := by
  unfold blocks
  rw [List.map_eq_nil_iff, List.filter_eq_nil_iff]
  intro e he
  simpa using h e he

theorem blocks_sublist (l : List (Entry D)) (p : ℕ) : (blocks l p).Sublist (l.map Entry.item) :=
  List.filter_sublist.map _

theorem mem_blocks {p b : ℕ} : b ∈ blocks l p ↔ ∃ e ∈ l, e.prio = p ∧ e.item = b := by
  unfold blocks
  simp [and_assoc]

/-- The lists and the bitmap are those of the items `l`, which stand in the order of their pushes. -/
structure Lists (que : Queue D) (l : List (Entry D)) : Prop where
  chain : ∀ p < 32, Chain que.items.next (que.head p) (blocks l p)
  tail : ∀ p < 32, ∀ k b, blocks l p = k ++ [b] → que.tail p = some b
  bits : ∀ p, que.bitmap.getLsbD p = true ↔ ∃ e ∈ l, e.prio = p
  prio : ∀ e ∈ l, e.prio < 32
  data : ∀ e ∈ l, que.items.data e.item = e.data
  nodup : (l.map Entry.item).Nodup

theorem doPush_first (h : que.head prio = none) : que.doPush prio item = some { que with
    head := Function.update que.head prio (some item)
    bitmap := que.bitmap ||| 1#32 <<< prio
    tail := Function.update que.tail prio (some item) } := by
  unfold Queue.doPush
  rw [h]

theorem doPush_next {first last : ℕ} (h : que.head prio = some first) (hlast : que.tail prio = some last) :
    que.doPush prio item = some { que with
      items := { que.items with next := Function.update que.items.next last (some item) }
      tail := Function.update que.tail prio (some item) } := by
  unfold Queue.doPush
  rw [h, hlast]

theorem doPop_some (hffs : rtFfs que.bitmap = prio + 1) (h : que.head prio = some item) :
    que.doPop = some (some item, { que with
      head := Function.update que.head prio (que.items.next item)
      bitmap := if que.items.next item = none then que.bitmap &&& ~~~(1#32 <<< prio) else que.bitmap }) := by
  unfold Queue.doPop
  simp only [hffs, Nat.succ_ne_zero, if_false, Nat.add_sub_cancel, h]

namespace Lists

theorem head_ne (h : Lists que l) {p : ℕ} (hp : p < 32) : que.head p ≠ none ↔ ∃ e ∈ l, e.prio = p := by
  rw [(h.chain p hp).head_eq, Ne, List.head?_eq_none_iff, List.eq_nil_iff_forall_not_mem, not_forall]
  simp only [not_not, mem_blocks]
  exact ⟨fun ⟨_, e, he, hprio, _⟩ => ⟨e, he, hprio⟩, fun ⟨e, he, hprio⟩ => ⟨e.item, e, he, hprio, rfl⟩⟩

/-- An item is in one list. -/
theorem one_list (h : Lists que l) {p p' b : ℕ} (hb : b ∈ blocks l p) (hb' : b ∈ blocks l p') : p = p' := by
  obtain ⟨e, he, rfl, rfl⟩ := mem_blocks.1 hb
  obtain ⟨e', he', rfl, hitem⟩ := mem_blocks.1 hb'
  rw [List.inj_on_of_nodup_map h.nodup he' he hitem]

theorem push_prio (h : Lists que l) (hp : e.prio < 32) : ∀ e' ∈ l ++ [e], e'.prio < 32 := by
  intro e' he'
  rcases List.mem_append.1 he' with he' | he'
  · exact h.prio e' he'
  · rw [List.mem_singleton.1 he']
    exact hp

theorem push_nodup (h : Lists que l) (hfresh : e.item ∉ l.map Entry.item) : ((l ++ [e]).map Entry.item).Nodup := by
  rw [List.map_append, List.map_singleton]
  exact List.nodup_append.2 ⟨h.nodup, List.nodup_singleton _, fun a ha b hb heq =>
    hfresh (List.mem_singleton.1 hb ▸ heq ▸ ha)⟩

theorem push_data (h : Lists que l) (hdata : que.items.data e.item = e.data) :
    ∀ e' ∈ l ++ [e], que.items.data e'.item = e'.data := by
  intro e' he'
  rcases List.mem_append.1 he' with he' | he'
  · exact h.data e' he'
  · rw [List.mem_singleton.1 he']
    exact hdata

/-- **`_do_push` puts an item behind all others.** -/
theorem doPush (h : Lists que l) (hp : e.prio < 32) (hfresh : e.item ∉ l.map Entry.item)
    (hnext : que.items.next e.item = none) (hdata : que.items.data e.item = e.data) :
    ∃ que', que.doPush e.prio e.item = some que' ∧ Lists que' (l ++ [e]) ∧ que'.items.data = que.items.data ∧
      ∀ b, b ∉ l.map Entry.item → que'.items.next b = que.items.next b := by
  have hself : blocks (l ++ [e]) e.prio = blocks l e.prio ++ [e.item] := by
    rw [blocks_append, blocks_cons_self]
    rfl
  have hother : ∀ p, e.prio ≠ p → blocks (l ++ [e]) p = blocks l p := by
    intro p hne
    rw [blocks_append, blocks_cons_ne hne]
    exact List.append_nil _
  have hmem : ∀ p, (∃ e' ∈ l ++ [e], e'.prio = p) ↔ (∃ e' ∈ l, e'.prio = p) ∨ e.prio = p := by
    intro p
    simp [or_and_right, exists_or]
  -- the new tail
  have htail : ∀ p < 32, ∀ k b, blocks (l ++ [e]) p = k ++ [b] →
      Function.update que.tail e.prio (some e.item) p = some b := by
    intro p hp' k b heq
    by_cases hne : e.prio = p
    · subst hne
      rw [hself] at heq
      rw [Function.update_self, (List.append_inj' heq rfl).2 |> List.cons.inj |>.1]
    · rw [hother p hne] at heq
      rw [Function.update_of_ne (Ne.symm hne)]
      exact h.tail p hp' k b heq
  cases hhead : que.head e.prio with
  | none =>
    have hnil : blocks l e.prio = [] := by
      have hc := h.chain e.prio hp
      rw [hhead] at hc
      exact hc.of_none
    refine ⟨_, doPush_first hhead, ⟨fun p hp' => ?_, htail, fun p => ?_, h.push_prio hp, h.push_data hdata,
      h.push_nodup hfresh⟩, rfl, fun _ _ => rfl⟩
    · by_cases hne : e.prio = p
      · subst hne
        rw [hself, hnil]
        simp only [Function.update_self]
        exact ⟨rfl, hnext⟩
      · rw [hother p hne]
        simp only [Function.update_of_ne (Ne.symm hne)]
        exact h.chain p hp'
    · rw [getLsbD_or_one, hmem, ← h.bits p]
      by_cases hne : e.prio = p
      · subst hne
        simp [hp]
      · simp [hne, Ne.symm hne]
  | some first =>
    obtain ⟨k, last, hk⟩ : ∃ k last, blocks l e.prio = k ++ [last] := by
      rcases List.eq_nil_or_concat (blocks l e.prio) with hnil | ⟨k, last, hk⟩
      · have hc := (h.chain e.prio hp).head_eq
        rw [hnil, hhead] at hc
        cases hc
      · exact ⟨k, last, by rw [hk, List.concat_eq_append]⟩
    have hlast : last ∈ blocks l e.prio := by
      rw [hk]
      exact List.mem_append_right _ List.mem_cons_self
    have hin : last ∈ l.map Entry.item := (blocks_sublist l e.prio).subset hlast
    refine ⟨_, doPush_next hhead (h.tail e.prio hp k last hk), ⟨fun p hp' => ?_, htail, fun p => ?_,
      h.push_prio hp, h.push_data hdata, h.push_nodup hfresh⟩, rfl, fun b hb => ?_⟩
    · by_cases hne : e.prio = p
      · subst hne
        have hc := h.chain e.prio hp
        have hnd := h.nodup.sublist (blocks_sublist l e.prio)
        have hnotin : e.item ∉ blocks l e.prio := fun hb => hfresh ((blocks_sublist l e.prio).subset hb)
        rw [hk] at hc hnd hnotin
        have happend := hc.append hnd hnotin
        rw [← hnext, Function.update_eq_self] at happend
        rw [hself, hk, List.append_assoc]
        exact happend
      · rw [hother p hne]
        exact (Chain.update fun hb => hne (h.one_list hlast hb)).2 (h.chain p hp')
    · rw [hmem, ← h.bits p]
      refine ⟨.inl, fun hor => hor.elim id ?_⟩
      rintro rfl
      obtain ⟨e', he', hprio, -⟩ := mem_blocks.1 hlast
      exact (h.bits e.prio).2 ⟨e', he', hprio⟩
    · refine Function.update_of_ne ?_ _ _
      rintro rfl
      exact hb hin

/-- **`_do_pop` takes the oldest item of the smallest priority number.** -/
theorem doPop (h : Lists que l) : (l = [] ∧ que.doPop = some (none, que)) ∨
    ∃ l₁ e l₂ que', l = l₁ ++ e :: l₂ ∧ (∀ e' ∈ l₁, e.prio < e'.prio) ∧ (∀ e' ∈ l₂, e.prio ≤ e'.prio) ∧
      que.doPop = some (some e.item, que') ∧ Lists que' (l₁ ++ l₂) ∧ que'.items = que.items := by
  by_cases hzero : que.bitmap = 0#32
  · left
    refine ⟨List.eq_nil_iff_forall_not_mem.2 fun e he => ?_, ?_⟩
    · have hbit := (h.bits e.prio).2 ⟨e, he, rfl⟩
      rw [hzero] at hbit
      simp at hbit
    · unfold Queue.doPop rtFfs
      rw [if_pos hzero]
      rfl
  · right
    obtain ⟨n, hffs, hlow⟩ := rtFfs_lowest hzero
    obtain ⟨e₀, he₀, hprio₀⟩ := (h.bits n).1 hlow.bit
    obtain ⟨e, l₁, l₂, hl₁, hprio, rfl, -⟩ := List.exists_of_eraseP (p := fun e => decide (e.prio = n)) he₀ (by simpa)
    have hprio : e.prio = n := by simpa using hprio
    subst hprio
    have hne : ∀ e' ∈ l₁, e'.prio ≠ e.prio := fun e' he' => by simpa using hl₁ e' he'
    have hle : ∀ e' ∈ l₁ ++ e :: l₂, e.prio ≤ e'.prio := fun e' he' => hlow.le ((h.bits e'.prio).2 ⟨e', he', rfl⟩)
    have hlt := hlow.lt
    have hself : blocks (l₁ ++ e :: l₂) e.prio = e.item :: blocks l₂ e.prio := by
      rw [blocks_append, blocks_nil_of hne, blocks_cons_self, List.nil_append]
    have hself' : blocks (l₁ ++ l₂) e.prio = blocks l₂ e.prio := by
      rw [blocks_append, blocks_nil_of hne, List.nil_append]
    have hother : ∀ p, e.prio ≠ p → blocks (l₁ ++ e :: l₂) p = blocks (l₁ ++ l₂) p := by
      intro p hp
      rw [blocks_append, blocks_append, blocks_cons_ne hp]
    have hchain := h.chain e.prio hlt
    rw [hself] at hchain
    obtain ⟨hhead, hrest⟩ := hchain
    have hsub : (l₁ ++ l₂).Sublist (l₁ ++ e :: l₂) := (List.Sublist.refl l₁).append (List.sublist_cons_self e l₂)
    refine ⟨l₁, e, l₂, _, rfl, fun e' he' => ?_, fun e' he' => hle e' (by simp [he']), doPop_some hffs hhead, ?_, rfl⟩
    · have := hle e' (by simp [he'])
      have := hne e' he'
      omega
    · refine ⟨fun p hp => ?_, fun p hp k b heq => ?_, fun p => ?_, fun e' he' => h.prio e' (hsub.subset he'),
        fun e' he' => h.data e' (hsub.subset he'), h.nodup.sublist (hsub.map _)⟩
      · by_cases hp' : e.prio = p
        · subst hp'
          simp only [Function.update_self]
          rw [hself']
          exact hrest
        · simp only [Function.update_of_ne (Ne.symm hp')]
          rw [← hother p hp']
          exact h.chain p hp
      · by_cases hp' : e.prio = p
        · subst hp'
          rw [hself'] at heq
          refine h.tail e.prio hp (e.item :: k) b ?_
          rw [hself, heq]
          rfl
        · rw [← hother p hp'] at heq
          exact h.tail p hp k b heq
      · have hmem : ∀ p, (∃ e' ∈ l₁ ++ l₂, e'.prio = p) ↔ blocks (l₁ ++ l₂) p ≠ [] := by
          intro p
          rw [Ne, List.eq_nil_iff_forall_not_mem, not_forall]
          simp only [not_not, mem_blocks]
          exact ⟨fun ⟨e', he', hp'⟩ => ⟨_, e', he', hp', rfl⟩, fun ⟨_, e', he', hp', _⟩ => ⟨e', he', hp'⟩⟩
        have hmem' : que.bitmap.getLsbD p = true ↔ blocks (l₁ ++ e :: l₂) p ≠ [] := by
          rw [h.bits p, Ne, List.eq_nil_iff_forall_not_mem, not_forall]
          simp only [not_not, mem_blocks]
          exact ⟨fun ⟨e', he', hp'⟩ => ⟨_, e', he', hp', rfl⟩, fun ⟨_, e', he', hp', _⟩ => ⟨e', he', hp'⟩⟩
        have hnone : que.items.next e.item = none ↔ blocks l₂ e.prio = [] := by
          rw [hrest.head_eq, List.head?_eq_none_iff]
        rw [hmem]
        show (if que.items.next e.item = none then que.bitmap &&& ~~~(1#32 <<< e.prio) else que.bitmap).getLsbD p = true ↔ _
        by_cases hp' : e.prio = p
        · subst hp'
          rw [hself']
          split
          · rename_i hnil
            rw [getLsbD_and_not_one]
            simp [hnone.1 hnil]
          · rename_i hnil
            rw [hnone] at hnil
            simp [hlow.bit, hnil]
        · rw [← hother p hp', ← hmem']
          split
          · rw [getLsbD_and_not_one]
            simp [Ne.symm hp']
          · rfl

end Lists

/-- Nothing is found in an empty queue only. -/
theorem Lists.of_doPop_none (h : Lists que l) (hpop : que.doPop = some (none, que')) : l = [] ∧ que' = que := by
  rcases h.doPop with ⟨hnil, hnone⟩ | ⟨l₁, e, l₂, queue', -, -, -, hsome, -, -⟩
  · rw [hnone] at hpop
    cases hpop
    exact ⟨hnil, rfl⟩
  · rw [hsome] at hpop
    cases hpop

/-- Other items do not matter. -/
theorem Lists.setItems (h : Lists que l) {items : Items D}
    (hsame : ∀ b ∈ l.map Entry.item, items.next b = que.items.next b ∧ items.data b = que.items.data b) :
    Lists { que with items } l where
  chain p hp := (h.chain p hp).congr fun b hb => (hsame b ((blocks_sublist l p).subset hb)).1
  tail := h.tail
  bits := h.bits
  prio := h.prio
  data e he := (hsame e.item (List.mem_map_of_mem he)).2.trans (h.data e he)
  nodup := h.nodup

end RtThread.PrioQueue
