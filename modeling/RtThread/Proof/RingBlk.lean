import RtThread.Spec.RingBlk

/-!
# The blocks of a ring block buffer do not overlap

* `Shrinks`: what every function but `rt_rbb_blk_alloc` does to the blocks.
* `alloc_cases`: where `rt_rbb_blk_alloc` puts a block.
* `laid_step`: the blocks of the list lie in a ring, and those taken out of it lie elsewhere.
* `blocks_disjoint`: the blocks in use lie in the buffer and share no byte, in every run whose allocs find the room
  that they infer.
* `blocks_overlap`: a block is handed out where one lies that has been taken out of the list.
-/

namespace RtThread.RingBlk

open Ranges

variable {cfg : Config} {s s' s₁ : State} {a : Act} {i j n : ℕ} {p blkSize : BitVec 32}

/-! ## Blocks that go -/

theorem setStatus_blkSet_self (s : State) (i : ℕ) (status : Status) :
    (s.setStatus i status).blkSet i = { s.blkSet i with status } := Function.update_self ..

theorem setStatus_blkSet_of_ne (s : State) (status : Status) (h : j ≠ i) :
    (s.setStatus i status).blkSet j = s.blkSet j := Function.update_of_ne h _ _

@[simp] theorem setStatus_self (s : State) (i : ℕ) (status : Status) : (s.setStatus i status).status i = status := by
  rw [State.status, setStatus_blkSet_self]

theorem setStatus_of_ne (s : State) (status : Status) (h : j ≠ i) : (s.setStatus i status).status j = s.status j := by
  rw [State.status, setStatus_blkSet_of_ne s status h, State.status]

theorem setStatus_blk (s : State) (i : ℕ) (status : Status) (j : ℕ) :
    ((s.setStatus i status).blkSet j).size = (s.blkSet j).size ∧
      ((s.setStatus i status).blkSet j).buf = (s.blkSet j).buf := by
  by_cases hj : j = i
  · rw [hj, setStatus_blkSet_self]
    exact ⟨rfl, rfl⟩
  · rw [setStatus_blkSet_of_ne s status hj]
    exact ⟨rfl, rfl⟩

/-- Blocks stay where they are. Some leave the list, and some are freed, which are in the list no longer. -/
structure Shrinks (s s' : State) : Prop where
  blk : ∀ i, (s'.blkSet i).size = (s.blkSet i).size ∧ (s'.blkSet i).buf = (s.blkSet i).buf
  list : s'.blkList.Sublist s.blkList
  used : ∀ i, s'.status i ≠ .unused → s.status i ≠ .unused
  linked : s.blkList.Nodup → ∀ i ∈ s'.blkList, s.status i ≠ .unused → s'.status i ≠ .unused

theorem Shrinks.refl (s : State) : Shrinks s s := ⟨fun _ => ⟨rfl, rfl⟩, .refl _, fun _ => id, fun _ _ _ => id⟩

theorem Shrinks.trans (h : Shrinks s s₁) (h' : Shrinks s₁ s') : Shrinks s s' := by
  refine ⟨fun i => ?_, h'.list.trans h.list, fun i hi => h.used i (h'.used i hi), fun hnd i hmem hi => ?_⟩
  · rw [(h'.blk i).1, (h'.blk i).2]
    exact h.blk i
  · exact h'.linked (hnd.sublist h.list) i hmem (h.linked hnd i (h'.list.subset hmem) hi)

/-- A block in use gets another status. -/
theorem setStatus_shrinks {status : Status} (hold : s.status i ≠ .unused) (hnew : status ≠ .unused) :
    Shrinks s (s.setStatus i status) := by
  refine ⟨setStatus_blk s i status, .refl _, fun j hj => ?_, fun _ j _ hj => ?_⟩
  · by_cases hji : j = i
    · rw [hji]
      exact hold
    · rwa [setStatus_of_ne s status hji] at hj
  · by_cases hji : j = i
    · rw [hji, setStatus_self]
      exact hnew
    · rwa [setStatus_of_ne s status hji]

/-- A block in use leaves the list, with another status. -/
theorem erase_shrinks {status : Status} (hold : s.status i ≠ .unused) :
    Shrinks s ({ s with blkList := s.blkList.erase i }.setStatus i status) := by
  refine ⟨setStatus_blk { s with blkList := s.blkList.erase i } i status, List.erase_sublist, fun j hj => ?_,
    fun hnd j hmem hj => ?_⟩
  · by_cases hji : j = i
    · rw [hji]
      exact hold
    · rwa [setStatus_of_ne _ status hji] at hj
  · have hji : j ≠ i := (hnd.mem_erase_iff.1 hmem).1
    rwa [setStatus_of_ne _ status hji]

theorem free_shrinks (hs : s.rtRbbBlkFree cfg i = some s') : Shrinks s s' := by
  unfold State.rtRbbBlkFree at hs
  split at hs
  · rename_i hi
    cases hs
    exact erase_shrinks hi.2
  · cases hs

theorem queueFree_shrinks (q : BlkQueue) (hs : s.rtRbbBlkQueueFree cfg q = some s') : Shrinks s s' := by
  unfold State.rtRbbBlkQueueFree at hs
  generalize List.range q.blkNum = l at hs
  induction l generalizing s with
  | nil =>
    cases hs
    exact .refl _
  | cons k l ih =>
    obtain ⟨s₁, hfree, hs⟩ := Option.bind_eq_some_iff.1 hs
    exact (free_shrinks hfree).trans (ih hs)

theorem queueGetLoop_shrinks (len : BitVec 32) (nodes : List ℕ) (last : Option ℕ) (q : BlkQueue) (total : BitVec 32)
    (s : State) : Shrinks s (State.queueGetLoop len nodes last q total s).2.2 := by
  induction nodes generalizing last q total s with
  | nil => exact .refl s
  | cons node nodes ih =>
    have htake : s.status node = .put → Shrinks s (s.takeOut node) := fun hput => erase_shrinks (by rw [hput]; nofun)
    cases last with
    | none =>
      unfold State.queueGetLoop
      split
      · rename_i hput
        exact (htake hput).trans (ih ..)
      · exact ih ..
    | some last =>
      simp only [State.queueGetLoop]
      split
      · exact .refl s
      · rename_i hgo
        have hput : s.status node = .put := not_not.1 fun hne => hgo (.inl hne)
        exact (htake hput).trans (ih ..)

theorem get_shrinks (s : State) : Shrinks s s.rtRbbBlkGet.2 := by
  unfold State.rtRbbBlkGet
  split
  · exact .refl s
  · rename_i block hfind
    have hput : s.status block = .put := of_decide_eq_true (List.find?_some (p := fun i => decide (s.status i = .put)) hfind)
    exact setStatus_shrinks (by rw [hput]; nofun) nofun

/-! ## A block that comes -/

/-- Where `rt_rbb_blk_alloc` puts a block, if it does. -/
inductive AllocCase (cfg : Config) (s : State) (blkSize : BitVec 32) (s' : State) : Prop
  | fail : s' = s → AllocCase cfg s blkSize s'
  | empty (new : ℕ) : s.findEmptyBlkInSet cfg = some new → s.blkList = [] → s' = s.append new cfg.buf blkSize →
      AllocCase cfg s blkSize s'
  | top (new head tail : ℕ) : s.findEmptyBlkInSet cfg = some new → s.blkList.head? = some head →
      s.blkList.getLast? = some tail → (s.blkSet head).buf ≤ (s.blkSet tail).buf →
      (cfg.buf + cfg.bufSize) - ((s.blkSet tail).buf + (s.blkSet tail).size) ≥ blkSize →
      s' = s.append new ((s.blkSet tail).buf + (s.blkSet tail).size) blkSize → AllocCase cfg s blkSize s'
  | bottom (new head tail : ℕ) : s.findEmptyBlkInSet cfg = some new → s.blkList.head? = some head →
      s.blkList.getLast? = some tail → (s.blkSet head).buf ≤ (s.blkSet tail).buf →
      ¬(cfg.buf + cfg.bufSize) - ((s.blkSet tail).buf + (s.blkSet tail).size) ≥ blkSize →
      (s.blkSet head).buf - cfg.buf ≥ blkSize → s' = s.append new cfg.buf blkSize → AllocCase cfg s blkSize s'
  | gap (new head tail : ℕ) : s.findEmptyBlkInSet cfg = some new → s.blkList.head? = some head →
      s.blkList.getLast? = some tail → ¬(s.blkSet head).buf ≤ (s.blkSet tail).buf →
      (s.blkSet head).buf - ((s.blkSet tail).buf + (s.blkSet tail).size) ≥ blkSize →
      s' = s.append new ((s.blkSet tail).buf + (s.blkSet tail).size) blkSize → AllocCase cfg s blkSize s'

theorem alloc_cases {r : Option ℕ × State} (hs : s.rtRbbBlkAlloc cfg blkSize = some r) :
    AllocCase cfg s blkSize r.2 := by
  unfold State.rtRbbBlkAlloc at hs
  split at hs
  swap
  · cases hs
  cases hnew : s.findEmptyBlkInSet cfg with
  | none =>
    simp only [hnew] at hs
    cases hs
    exact .fail rfl
  | some new =>
    simp only [hnew] at hs
    split at hs
    swap
    · cases hs
      exact .fail rfl
    split at hs
    · rename_i head tail hhead htail
      split at hs
      · rename_i hle
        split at hs
        · rename_i htop
          cases hs
          exact .top new head tail hnew hhead htail hle htop rfl
        · rename_i htop
          split at hs
          · rename_i hbottom
            cases hs
            exact .bottom new head tail hnew hhead htail hle htop hbottom rfl
          · cases hs
            exact .fail rfl
      · rename_i hle
        split at hs
        · rename_i hgap
          cases hs
          exact .gap new head tail hnew hhead htail hle hgap rfl
        · cases hs
          exact .fail rfl
    · rename_i hnone
      cases hs
      refine .empty new hnew ?_ rfl
      cases hl : s.blkList with
      | nil => rfl
      | cons head l =>
        rw [hl] at hnone
        exact absurd rfl (hnone head ((head :: l).getLast (List.cons_ne_nil head l)) rfl)

theorem findEmpty_unused (h : s.findEmptyBlkInSet cfg = some n) : n < cfg.blkMaxNum ∧ s.status n = .unused :=
  ⟨List.mem_range.1 (List.mem_of_find?_eq_some h),
    of_decide_eq_true (List.find?_some (p := fun i => decide (s.status i = .unused)) h)⟩

/-! ## Every step -/

/-- Two blocks share no byte. -/
def Apart (s : State) (i j : ℕ) : Prop :=
  s.start i = s.stop i ∨ s.start j = s.stop j ∨ s.stop i ≤ s.start j ∨ s.stop j ≤ s.start i

theorem Apart.symm (h : Apart s i j) : Apart s j i := by
  unfold Apart at h ⊢
  omega

/-- The list holds blocks in use, each once. -/
structure Listed (cfg : Config) (s : State) : Prop where
  nodup : s.blkList.Nodup
  used : ∀ i ∈ s.blkList, s.inUse cfg i

theorem Listed.init (h : s.Init cfg) : Listed cfg s := by
  refine ⟨h.1 ▸ List.nodup_nil, ?_⟩
  rw [h.1]
  nofun

theorem Listed.shrink (h : Listed cfg s) (hs : Shrinks s s') : Listed cfg s' := by
  refine ⟨h.nodup.sublist hs.list, fun i hmem => ?_⟩
  obtain ⟨hlt, hi⟩ := h.used i (hs.list.subset hmem)
  exact ⟨hlt, hs.linked h.nodup i hmem hi⟩

theorem append_blkSet_self (s : State) (n : ℕ) (p blkSize : BitVec 32) :
    (s.append n p blkSize).blkSet n = ⟨.inited, blkSize, p⟩ := Function.update_self ..

theorem append_blkSet_of_ne (s : State) (p blkSize : BitVec 32) (h : i ≠ n) :
    (s.append n p blkSize).blkSet i = s.blkSet i := Function.update_of_ne h _ _

theorem append_inUse (h : i ≠ n) : (s.append n p blkSize).inUse cfg i ↔ s.inUse cfg i := by
  rw [State.inUse, State.status, append_blkSet_of_ne s p blkSize h]
  rfl

/-- A block that is not in use is not in the list. -/
theorem Listed.ne_of_mem (h : Listed cfg s) (hn : s.status n = .unused) (hmem : i ∈ s.blkList) : i ≠ n := by
  rintro rfl
  exact (h.used i hmem).2 hn

theorem Listed.append (h : Listed cfg s) (hnew : n < cfg.blkMaxNum ∧ s.status n = .unused) :
    Listed cfg (s.append n p blkSize) := by
  refine ⟨?_, fun i hmem => ?_⟩
  · have hfresh : n ∉ s.blkList := fun hmem => h.ne_of_mem hnew.2 hmem rfl
    exact (List.perm_append_singleton n _).nodup_iff.2 (List.nodup_cons.2 ⟨hfresh, h.nodup⟩)
  · rcases List.mem_append.1 hmem with hmem | hmem
    · exact (append_inUse (h.ne_of_mem hnew.2 hmem)).2 (h.used i hmem)
    · rw [List.mem_singleton.1 hmem]
      refine ⟨hnew.1, ?_⟩
      rw [State.status, append_blkSet_self]
      nofun

/-- The blocks of the list lie in a ring, and the other blocks in use lie elsewhere in the buffer. -/
structure Laid (cfg : Config) (s : State) : Prop extends Listed cfg s where
  ring : Ring s.start s.stop s.blkList
  inside : ∀ i, s.inUse cfg i → cfg.buf.toNat ≤ s.start i ∧ s.stop i ≤ cfg.buf.toNat + cfg.bufSize.toNat
  out : ∀ i j, s.inUse cfg i → s.inUse cfg j → i ∉ s.blkList → i ≠ j → Apart s i j

theorem start_le_stop (s : State) (i : ℕ) : s.start i ≤ s.stop i := Nat.le_add_right ..

theorem Laid.apart (h : Laid cfg s) (hi : s.inUse cfg i) (hj : s.inUse cfg j) (hne : i ≠ j) : Apart s i j := by
  by_cases hmi : i ∈ s.blkList
  · by_cases hmj : j ∈ s.blkList
    · exact .inr (.inr (h.ring.apart hmi hmj hne))
    · exact (h.out j i hj hi hmj hne.symm).symm
  · exact h.out i j hi hj hmi hne

theorem Laid.shrink (h : Laid cfg s) (hs : Shrinks s s') : Laid cfg s' := by
  have hstart : ∀ i, s'.start i = s.start i := fun i => by rw [State.start, (hs.blk i).2, State.start]
  have hstop : ∀ i, s'.stop i = s.stop i := fun i => by rw [State.stop, hstart, (hs.blk i).1, State.stop]
  have hused : ∀ i, s'.inUse cfg i → s.inUse cfg i := fun i hi => ⟨hi.1, hs.used i hi.2⟩
  refine ⟨h.toListed.shrink hs, ?_, fun i hi => ?_, fun i j hi hj _ hne => ?_⟩
  · exact (h.ring.sublist hs.list).congr (fun i _ => hstart i) fun i _ => hstop i
  · rw [hstart, hstop]
    exact h.inside i (hused i hi)
  · unfold Apart
    rw [hstart, hstop, hstart, hstop]
    exact h.apart (hused i hi) (hused j hj) hne

/-- A block of `blk_set` comes to lie at `p`. -/
theorem Laid.append (h : Laid cfg s) (hnew : n < cfg.blkMaxNum ∧ s.status n = .unused)
    (hinside : cfg.buf.toNat ≤ p.toNat ∧ p.toNat + blkSize.toNat ≤ cfg.buf.toNat + cfg.bufSize.toNat)
    (hring : ∀ lo hi : ℕ → ℕ, (∀ i ∈ s.blkList, lo i = s.start i) → (∀ i ∈ s.blkList, hi i = s.stop i) →
      lo n = p.toNat → hi n = p.toNat + blkSize.toNat → Ring lo hi (s.blkList ++ [n]))
    (hfree : s.Free cfg p blkSize) : Laid cfg (s.append n p blkSize) := by
  have hstart : ∀ i, i ≠ n → (s.append n p blkSize).start i = s.start i := fun i hi => by
    rw [State.start, append_blkSet_of_ne s p blkSize hi, State.start]
  have hstop : ∀ i, i ≠ n → (s.append n p blkSize).stop i = s.stop i := fun i hi => by
    rw [State.stop, hstart i hi, append_blkSet_of_ne s p blkSize hi, State.stop]
  have hstartn : (s.append n p blkSize).start n = p.toNat := by rw [State.start, append_blkSet_self]
  have hstopn : (s.append n p blkSize).stop n = p.toNat + blkSize.toNat := by
    rw [State.stop, hstartn, append_blkSet_self]
  refine ⟨h.toListed.append hnew, ?_, fun i hi => ?_, fun i j hi hj hmem hne => ?_⟩
  · exact hring _ _ (fun i hmem => hstart i (h.ne_of_mem hnew.2 hmem))
      (fun i hmem => hstop i (h.ne_of_mem hnew.2 hmem)) hstartn hstopn
  · by_cases hin : i = n
    · rw [hin, hstartn, hstopn]
      exact hinside
    · rw [hstart i hin, hstop i hin]
      exact h.inside i ((append_inUse hin).1 hi)
  · have hout : i ∉ s.blkList := fun hm => hmem (List.mem_append_left _ hm)
    have hin : i ≠ n := fun he => hmem (List.mem_append_right _ (List.mem_singleton.2 he))
    have hi' := (append_inUse hin).1 hi
    unfold Apart
    rw [hstart i hin, hstop i hin]
    by_cases hjn : j = n
    · rw [hjn, hstartn, hstopn]
      rcases hfree i hi'.1 hi'.2 hout with he | hzero | hbelow | habove
      · exact .inl he
      · rw [hzero]
        exact .inr (.inl rfl)
      · exact .inr (.inr (.inl hbelow))
      · exact .inr (.inr (.inr habove))
    · rw [hstart j hjn, hstop j hjn]
      exact h.out i j hi' ((append_inUse hjn).1 hj) hout hne

/-- The end of the buffer, and of a block in it. -/
theorem end_toNat (cfg : Config) : (cfg.buf + cfg.bufSize).toNat = cfg.buf.toNat + cfg.bufSize.toNat := by
  rw [BitVec.toNat_add, Nat.mod_eq_of_lt cfg.fits]

theorem Laid.behind_toNat (h : Laid cfg s) (hi : s.inUse cfg i) :
    ((s.blkSet i).buf + (s.blkSet i).size).toNat = s.stop i := by
  have hfits := cfg.fits
  have hle : s.stop i ≤ _ := (h.inside i hi).2
  rw [BitVec.toNat_add]
  exact Nat.mod_eq_of_lt (by unfold State.stop State.start at hle; omega)

/-- There is room of `m` bytes between two addresses. -/
theorem room {q r m : BitVec 32} (hle : q.toNat ≤ r.toNat) (h : r - q ≥ m) : q.toNat + m.toNat ≤ r.toNat := by
  have hnat : m.toNat ≤ (r - q).toNat := h
  rw [BitVec.toNat_sub_of_le hle] at hnat
  omega

theorem laid_alloc {r : Option ℕ × State} (h : Laid cfg s) (hok : KeepsDisjoint cfg s (.alloc blkSize))
    (hs : s.rtRbbBlkAlloc cfg blkSize = some r) : Laid cfg r.2 := by
  simp only [KeepsDisjoint] at hok
  cases alloc_cases hs with
  | fail hr =>
    rw [hr]
    exact h
  | empty new hnew hnil hr =>
    rw [hnil, hnew] at hok
    obtain ⟨hle, hfree⟩ := hok.resolve_left (by simp)
    have hle : blkSize.toNat ≤ cfg.bufSize.toNat := hle
    rw [hr]
    refine h.append (findEmpty_unused hnew) ⟨le_rfl, by omega⟩ (fun lo hi _ _ _ _ => ?_) hfree
    rw [hnil]
    exact Ascending.ring (List.pairwise_singleton _ new)
  | top new head tail hnew hhead htail hle htop hr =>
    rw [hhead, htail, hnew] at hok
    have hok := hok.resolve_left (by simp)
    simp only at hok
    rw [if_pos hle, if_pos htop] at hok
    obtain ⟨hasc, hfree⟩ := hok
    obtain ⟨k, hk⟩ := List.getLast?_eq_some_iff.1 htail
    have hused : s.inUse cfg tail := h.used tail (hk ▸ List.mem_append_right _ (List.mem_singleton_self tail))
    have hbehind := h.behind_toNat hused
    have hin := h.inside tail hused
    have hroom := room (by rw [hbehind, end_toNat]; exact hin.2) htop
    have hstart := start_le_stop s tail
    rw [hbehind, end_toNat] at hroom
    rw [hr]
    refine h.append (findEmpty_unused hnew) ?_ (fun lo hi hlo hhi hlon _ => ?_) hfree
    · rw [hbehind]
      exact ⟨by omega, hroom⟩
    · refine (hasc.congr hlo hhi).push_top fun i hmem => ?_
      rw [hlon, hbehind, hhi i hmem]
      rw [hk] at hasc hmem
      exact hasc.le_last hstart hmem
  | bottom new head tail hnew hhead htail hle htop hbottom hr =>
    rw [hhead, htail, hnew] at hok
    have hok := hok.resolve_left (by simp)
    simp only at hok
    rw [if_pos hle, if_neg htop] at hok
    obtain ⟨hasc, hfree⟩ := hok hbottom
    obtain ⟨l, hl⟩ := List.head?_eq_some_iff.1 hhead
    have hused : s.inUse cfg head := h.used head (hl ▸ List.mem_cons_self)
    have hin := h.inside head hused
    have hroom : cfg.buf.toNat + blkSize.toNat ≤ s.start head := room hin.1 hbottom
    have hstart := start_le_stop s head
    rw [hr]
    refine h.append (findEmpty_unused hnew) ⟨le_rfl, by omega⟩ (fun lo hi hlo hhi _ hhin => ?_) hfree
    refine (hasc.congr hlo hhi).push_bottom fun i hmem => ?_
    rw [hhin, hlo i hmem]
    rw [hl] at hasc hmem
    exact le_trans hroom (hasc.head_le hstart hmem)
  | gap new head tail hnew hhead htail hle hgap hr =>
    rw [hhead, htail, hnew] at hok
    have hok := hok.resolve_left (by simp)
    simp only at hok
    rw [if_neg hle] at hok
    have hfree := hok hgap
    obtain ⟨l, hl⟩ := List.head?_eq_some_iff.1 hhead
    obtain ⟨k, hk⟩ := List.getLast?_eq_some_iff.1 htail
    have hmh : head ∈ s.blkList := hl ▸ List.mem_cons_self
    have hmt : tail ∈ s.blkList := hk ▸ List.mem_append_right _ (List.mem_singleton_self tail)
    have hround : s.start tail < s.start head := BitVec.not_le.1 hle
    have hbehind := h.behind_toNat (h.used tail hmt)
    have hstart := start_le_stop s head
    -- the last block lies below the first
    have hbelow : s.stop tail ≤ s.start head := by
      rcases h.ring.apart hmh hmt (by rintro rfl; exact lt_irrefl _ hround) with hb | hb
      · omega
      · exact hb
    have hroom : s.stop tail + blkSize.toNat ≤ s.start head := by
      have hroom := room (by rw [hbehind]; exact hbelow) hgap
      rwa [hbehind] at hroom
    have hin := h.inside head (h.used head hmh)
    have hint := h.inside tail (h.used tail hmt)
    have hst := start_le_stop s tail
    rw [hr]
    refine h.append (findEmpty_unused hnew) ?_ (fun lo hi hlo hhi hlon hhin => ?_) hfree
    · rw [hbehind]
      exact ⟨by omega, by omega⟩
    · refine (h.ring.congr hlo hhi).push_gap (fun i hmem => ?_) hl hk ?_ ?_ ?_
      · rw [hlo i hmem, hhi i hmem]
        exact start_le_stop s i
      · rw [hlo tail hmt, hlo head hmh]
        exact hround
      · rw [hhi tail hmt, hlon, hbehind]
      · rw [hhin, hlo head hmh, hbehind]
        exact hroom

/-- Every function but `rt_rbb_blk_alloc` makes the list shrink. -/
theorem step_shrinks (hs : s.step cfg a = some s') (ha : ∀ blkSize, a ≠ .alloc blkSize) : Shrinks s s' := by
  cases a with
  | alloc blkSize => exact absurd rfl (ha blkSize)
  | put block =>
    simp only [State.step, State.rtRbbBlkPut] at hs
    split at hs
    · rename_i hblock
      cases hs
      exact setStatus_shrinks (by rw [hblock.2]; nofun) nofun
    · cases hs
  | get =>
    cases hs
    exact get_shrinks s
  | free block => exact free_shrinks hs
  | queueGet len =>
    cases hs
    exact queueGetLoop_shrinks ..
  | queueFree q => exact queueFree_shrinks q hs

theorem laid_step (h : Laid cfg s) (hok : KeepsDisjoint cfg s a) (hs : s.step cfg a = some s') : Laid cfg s' := by
  by_cases ha : ∀ blkSize, a ≠ .alloc blkSize
  · exact h.shrink (step_shrinks hs ha)
  · obtain ⟨blkSize, ha⟩ := not_forall.1 ha
    obtain rfl : a = .alloc blkSize := not_not.1 ha
    obtain ⟨r, hr, rfl⟩ := Option.map_eq_some_iff.1 hs
    exact laid_alloc h hok hr

/-- **The blocks in use lie in the buffer and share no byte**, in every run whose allocs find the room that they
infer. -/
theorem blocks_disjoint (cfg : Config) {s : State} (h : Runs cfg (KeepsDisjoint cfg) s) : s.Disjoint cfg := by
  have hlaid : Laid cfg s := by
    refine Run.Reach.inv ?_ ?_ h
    · intro s hinit
      have hnone : ∀ i, ¬s.inUse cfg i := fun i hi => hi.2 (hinit.2 i hi.1)
      refine ⟨.init hinit, ?_, fun i hi => absurd hi (hnone i), fun i _ hi => absurd hi (hnone i)⟩
      rw [hinit.1]
      exact Ascending.ring .nil
    · exact fun s a s' hlaid hok hs => laid_step hlaid hok hs
  refine ⟨hlaid.inside, fun i j hi hj hne x hx => ?_⟩
  have hapart := hlaid.apart hi hj hne
  unfold Apart at hapart
  omega

/-- A buffer of four bytes at the address 256, and two blocks. -/
def fourBytes : Config := ⟨256, 4, 2, by decide⟩

/-- Nothing has been allocated yet. -/
def fresh : State := ⟨fun _ => ⟨.unused, 0, 0⟩, []⟩

theorem fresh_init (cfg : Config) : fresh.Init cfg := ⟨rfl, fun _ _ => rfl⟩

/-- Two blocks of two bytes fill the buffer. -/
theorem blocks_disjoint_two : ∃ s : State, s.blkList = [0, 1] ∧ s.start 1 = 258 ∧ s.Disjoint fourBytes := by
  obtain ⟨s, hr, h⟩ := Run.Reach.exec_ok (State.step fourBytes) (KeepsDisjoint fourBytes) (fresh_init fourBytes)
    [.alloc 2, .put 0, .alloc 2, .get] (fun s => decide (s.blkList = [0, 1]) && decide (s.start 1 = 258))
    (by decide)
  rw [Bool.and_eq_true, decide_eq_true_eq, decide_eq_true_eq] at h
  exact ⟨s, h.1, h.2, blocks_disjoint fourBytes hr⟩

/-- **Two blocks overlap**: the first is taken out of the list with `rt_rbb_blk_queue_get`, and the next alloc finds
an empty list. -/
theorem blocks_overlap : ∃ s : State, Runs fourBytes Run.Any s ∧ ¬s.Disjoint fourBytes := by
  obtain ⟨s, hr, h⟩ := Run.Reach.exec_ok (fun s a => s.step fourBytes a) Run.Any (fresh_init fourBytes)
    [.alloc 4, .put 0, .queueGet 4, .alloc 4]
    (fun s => decide (s.inUse fourBytes 0) && (decide (s.inUse fourBytes 1) &&
      (decide (s.start 0 = 256 ∧ s.stop 0 = 260) && decide (s.start 1 = 256 ∧ s.stop 1 = 260)))) (by decide)
  simp only [Bool.and_eq_true, decide_eq_true_eq] at h
  obtain ⟨h₀, h₁, hr₀, hr₁⟩ := h
  refine ⟨s, hr, fun hd => hd.2 0 1 h₀ h₁ (by decide) 256 ?_⟩
  omega

end RtThread.RingBlk
