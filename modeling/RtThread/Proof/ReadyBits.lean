import RtThread.Spec.Sched

/-!
# The ready bitmap

What `__rt_ffs` finds, and what setting and clearing a thread's bit through its cached masks
does to the bitmap.

* `rtFfs_lowest`: `__rt_ffs` gives the least one bit, counted from 1.
* `readyBit_setReadyBit`, `readyBit_clearReadyBit`: the bit of the thread's priority, and no other.
* `highestReadyPriority_eq`: the priority read off a consistent bitmap is the least one set.
-/

namespace RtThread.Sched

open Bits

/-- The table of bytes is right: checked entry by entry. -/
theorem lowestBitBitmap_spec : ∀ b < 256, b ≠ 0 → b.testBit (lowestBitBitmap.getD b 0) = true ∧
    ∀ m < lowestBitBitmap.getD b 0, b.testBit m = false := by
  decide +kernel

theorem lowest_of_table {x : BitVec 32} {s : ℕ} (hlow : ∀ m, m < s → x.getLsbD m = false)
    (h : x &&& 255#32 <<< s ≠ 0#32) :
    Lowest x (s + lowestBitBitmap.getD ((x &&& 255#32 <<< s) >>> s).toNat 0) := by
  have hne := and_byte_ne_zero h
  have hb : ∀ n, ((x &&& 255#32 <<< s) >>> s).toNat.testBit n = (x.getLsbD (s + n) && decide (n < 8)) :=
    fun n => by rw [BitVec.testBit_toNat, getLsbD_byte]
  have hlt : ((x &&& 255#32 <<< s) >>> s).toNat < 2 ^ 8 :=
    Nat.lt_pow_two_of_testBit _ fun n hn => by rw [hb]; simp [show ¬ n < 8 by omega]
  have hspec := lowestBitBitmap_spec _ hlt fun h0 => hne (BitVec.eq_of_toNat_eq (by simpa using h0))
  refine Lowest.of_byte hlow ?_ fun m hm => ?_
  · rw [← BitVec.testBit_toNat]
    exact hspec.1
  · rw [← BitVec.testBit_toNat]
    exact hspec.2 m hm

theorem below_add_byte {x : BitVec 32} {s : ℕ} (hlow : ∀ m, m < s → x.getLsbD m = false)
    (h : x &&& 255#32 <<< s = 0#32) : ∀ m, m < s + 8 → x.getLsbD m = false := by
  intro m hm
  by_cases hs : m < s
  · exact hlow m hs
  · exact and_byte_eq_zero h (by omega) hm

/-- **`__rt_ffs` finds the least one bit**, counted from 1. -/
theorem rtFfs_lowest {x : BitVec 32} (h : x ≠ 0#32) : ∃ n, rtFfs x = n + 1 ∧ Lowest x n := by
  unfold rtFfs
  rw [if_neg h]
  have h0 : ∀ m, m < 0 → x.getLsbD m = false := fun m hm => absurd hm (by omega)
  by_cases h1 : x &&& 255#32 <<< 0 = 0#32
  · have l1 : ∀ m, m < 8 → x.getLsbD m = false := below_add_byte h0 h1
    rw [show (255#32 <<< 0) = 0xff#32 from rfl] at h1
    rw [if_neg (by simpa using h1)]
    by_cases h2 : x &&& 255#32 <<< 8 = 0#32
    · have l2 : ∀ m, m < 16 → x.getLsbD m = false := below_add_byte l1 h2
      rw [show (255#32 <<< 8) = 0xff00#32 from rfl] at h2
      rw [if_neg (by simpa using h2)]
      by_cases h3 : x &&& 255#32 <<< 16 = 0#32
      · have l3 : ∀ m, m < 24 → x.getLsbD m = false := below_add_byte l2 h3
        rw [show (255#32 <<< 16) = 0xff0000#32 from rfl] at h3
        rw [if_neg (by simpa using h3)]
        have h4 : x &&& 255#32 <<< 24 ≠ 0#32 := by
          intro h4
          apply h
          rw [eq_zero_iff]
          intro n
          by_cases hn : n < 32
          · exact below_add_byte l3 h4 n hn
          · exact BitVec.getLsbD_of_ge x n (by omega)
        exact ⟨_, by rw [show (0xff000000#32) = 255#32 <<< 24 from rfl]; omega,
          lowest_of_table l3 h4⟩
      · have l := lowest_of_table l2 h3
        rw [show (255#32 <<< 16) = 0xff0000#32 from rfl] at h3 l
        rw [if_pos h3]
        exact ⟨_, by omega, l⟩
    · have l := lowest_of_table l1 h2
      rw [show (255#32 <<< 8) = 0xff00#32 from rfl] at h2 l
      rw [if_pos h2]
      exact ⟨_, by omega, l⟩
  · have l := lowest_of_table h0 h1
    rw [show (255#32 <<< 0) = 0xff#32 from rfl] at h1 l
    rw [if_pos h1]
    refine ⟨_, rfl, ?_⟩
    rw [BitVec.ushiftRight_zero, Nat.zero_add] at l
    exact l

/-- The cached masks are those of `current_priority`. -/
def Thread.MasksOk (cfg : Config) (th : Thread) : Prop :=
  if cfg.wide then
    th.number = th.currentPriority / 8 ∧ th.numberMask = 1#32 <<< (th.currentPriority / 8) ∧
      th.highMask = 1#8 <<< (th.currentPriority % 8)
  else th.numberMask = 1#32 <<< th.currentPriority

/-- The masks are right, or the thread never ran and has none. -/
def Thread.MasksFit (cfg : Config) (th : Thread) : Prop :=
  th.MasksOk cfg ∨ (th.numberMask = 0#32 ∧ th.highMask = 0#8) ∧ (th.stat = .init ∨ th.stat = .close)

variable {cfg : Config}

/-- The recalculation makes the masks right and changes nothing else. -/
theorem setPriority_ok {th th' : Thread} {p : ℕ} (h : th.setPriority cfg p = some th') :
    th'.MasksOk cfg ∧ th'.currentPriority = p ∧
      th' = { th with currentPriority := p, number := th'.number, numberMask := th'.numberMask,
                      highMask := th'.highMask } := by
  unfold Thread.setPriority at h
  unfold Thread.MasksOk
  by_cases hw : cfg.wide = true
  · rw [if_pos hw] at h
    cases h
    rw [if_pos hw]
    exact ⟨by simp [Nat.shiftRight_eq_div_pow], rfl, rfl⟩
  · rw [if_neg hw] at h
    by_cases hp : p < 32
    · rw [if_pos hp] at h
      cases h
      rw [if_neg hw]
      exact ⟨rfl, rfl, rfl⟩
    · rw [if_neg hp] at h
      cases h

theorem priorityMax_le_of_not_wide (hw : cfg.wide ≠ true) : cfg.priorityMax ≤ 32 := by
  unfold Config.wide at hw
  simpa using hw

namespace Scheduler

variable {T Q : Type} [DecidableEq T] [DecidableEq Q] {s : Scheduler T Q} {t : T}

/-- The group marks the rows of the table that hold a bit. -/
def GroupOk (cfg : Config) (s : Scheduler T Q) : Prop :=
  cfg.wide = true → ∀ r, s.readyGroup.getLsbD r = true ↔ s.readyTable r ≠ 0#8

omit [DecidableEq T] [DecidableEq Q] in
theorem readyBit_setReadyBit (hm : (s.thread t).MasksOk cfg) (hp : s.priority t < cfg.priorityMax)
    (n : ℕ) : (s.setReadyBit cfg t).readyBit cfg n = (s.readyBit cfg n || decide (n = s.priority t)) := by
  unfold Thread.MasksOk at hm
  unfold setReadyBit readyBit
  by_cases hw : cfg.wide = true
  · rw [if_pos hw] at hm
    simp only [if_pos hw]
    rw [hm.1, hm.2.2]
    by_cases hr : n / 8 = (s.thread t).currentPriority / 8
    · rw [hr, Function.update_self, getLsbD_or_one]
      have : (n % 8 = (s.thread t).currentPriority % 8) ↔ n = s.priority t := by
        unfold priority; omega
      simp [this, show n % 8 < 8 by omega]
    · rw [Function.update_of_ne hr]
      have : n ≠ s.priority t := by unfold priority; omega
      simp [this]
  · rw [if_neg hw] at hm
    simp only [if_neg hw]
    rw [hm, getLsbD_or_one]
    have := priorityMax_le_of_not_wide hw
    by_cases hn : n = s.priority t
    · have : n < 32 := by omega
      simp [hn, priority] at this ⊢
      simp [this]
    · simp [hn, show n ≠ (s.thread t).currentPriority from hn]

omit [DecidableEq T] [DecidableEq Q] in
theorem groupOk_setReadyBit (hm : (s.thread t).MasksOk cfg) (hp : s.priority t < cfg.priorityMax)
    (h : s.GroupOk cfg) : (s.setReadyBit cfg t).GroupOk cfg := by
  intro hw r
  unfold Thread.MasksOk at hm
  rw [if_pos hw] at hm
  unfold setReadyBit
  simp only [if_pos hw]
  have hlt : (s.thread t).currentPriority / 8 < 32 := by
    have := cfg.priorityMax_le
    unfold priority at hp
    omega
  rw [hm.2.1, hm.1, getLsbD_or_one]
  by_cases hr : r = (s.thread t).currentPriority / 8
  · subst hr
    rw [Function.update_self, hm.2.2]
    simp only [hlt, decide_true, Bool.and_true, Bool.or_true, true_iff]
    intro h0
    rw [eq_zero_iff] at h0
    have := h0 ((s.thread t).currentPriority % 8)
    rw [getLsbD_or_one] at this
    simp [show (s.thread t).currentPriority % 8 < 8 by omega] at this
  · rw [Function.update_of_ne hr, ← h hw r]
    simp [hr]

omit [DecidableEq T] [DecidableEq Q] in
theorem readyBit_clearReadyBit (hm : (s.thread t).MasksOk cfg) (n : ℕ) :
    (s.clearReadyBit cfg t).readyBit cfg n = (s.readyBit cfg n && decide (n ≠ s.priority t)) := by
  unfold Thread.MasksOk at hm
  unfold clearReadyBit readyBit
  by_cases hw : cfg.wide = true
  · rw [if_pos hw] at hm
    simp only [if_pos hw]
    rw [hm.1, hm.2.2]
    by_cases hr : n / 8 = (s.thread t).currentPriority / 8
    · rw [hr, Function.update_self, getLsbD_and_not_one]
      have : (n % 8 = (s.thread t).currentPriority % 8) ↔ n = s.priority t := by
        unfold priority; omega
      simp [this]
    · rw [Function.update_of_ne hr]
      have : n ≠ s.priority t := by unfold priority; omega
      simp [this]
  · rw [if_neg hw] at hm
    simp only [if_neg hw]
    rw [hm, getLsbD_and_not_one]
    rfl

omit [DecidableEq T] [DecidableEq Q] in
theorem groupOk_clearReadyBit (hm : (s.thread t).MasksOk cfg) (h : s.GroupOk cfg) :
    (s.clearReadyBit cfg t).GroupOk cfg := by
  intro hw r
  unfold Thread.MasksOk at hm
  rw [if_pos hw] at hm
  unfold clearReadyBit
  simp only [if_pos hw]
  by_cases hr : r = (s.thread t).number
  · subst hr
    rw [Function.update_self]
    by_cases h0 : s.readyTable (s.thread t).number &&& ~~~(s.thread t).highMask = 0#8
    · rw [if_pos h0, hm.2.1, getLsbD_and_not_one]
      simp [h0, ← hm.1]
    · rw [if_neg h0, h hw]
      simp only [ne_eq, h0, not_false_eq_true, iff_true]
      intro h1
      rw [h1, BitVec.zero_and] at h0
      exact h0 rfl
  · rw [Function.update_of_ne hr, ← h hw r]
    split
    · rw [hm.2.1, getLsbD_and_not_one, ← hm.1]
      simp [hr]
    · rfl

omit [DecidableEq T] [DecidableEq Q] in
/-- Without masks nothing is cleared. -/
theorem clearReadyBit_of_zero (hn : (s.thread t).numberMask = 0#32) (hh : (s.thread t).highMask = 0#8) :
    s.clearReadyBit cfg t = s := by
  have h8 : ∀ x : BitVec 8, x &&& ~~~(0#8) = x := fun x => by
    rw [BitVec.not_zero, BitVec.and_allOnes]
  have h32 : ∀ x : BitVec 32, x &&& ~~~(0#32) = x := fun x => by
    rw [BitVec.not_zero, BitVec.and_allOnes]
  unfold clearReadyBit
  simp only [hn, hh, h8, h32, Function.update_eq_self, ite_self]

omit [DecidableEq T] [DecidableEq Q] in
/-- **The priority read off the bitmap** is the least one whose bit is set. -/
theorem highestReadyPriority_eq (h : s.GroupOk cfg) {p : ℕ} (hp : s.readyBit cfg p = true) :
    ∃ n, s.highestReadyPriority cfg = some n ∧ s.readyBit cfg n = true ∧
      ∀ m, s.readyBit cfg m = true → n ≤ m := by
  unfold readyBit at hp ⊢
  unfold highestReadyPriority
  by_cases hw : cfg.wide = true
  · simp only [if_pos hw] at hp ⊢
    have row_of_bit : ∀ m, (s.readyTable (m / 8)).getLsbD (m % 8) = true →
        s.readyGroup.getLsbD (m / 8) = true := by
      intro m hm
      rw [h hw]
      intro h0
      rw [h0, BitVec.getLsbD_zero] at hm
      exact Bool.noConfusion hm
    have hg : s.readyGroup ≠ 0#32 := by
      intro h0
      have := row_of_bit p hp
      rw [h0, BitVec.getLsbD_zero] at this
      exact Bool.noConfusion this
    obtain ⟨r, hr, hlr⟩ := rtFfs_lowest hg
    have hrow : s.readyTable r ≠ 0#8 := (h hw r).1 hlr.bit
    have hrow' : (s.readyTable r).setWidth 32 ≠ 0#32 := by
      intro h0
      apply hrow
      rw [eq_zero_iff] at h0 ⊢
      intro n
      have := h0 n
      rw [BitVec.getLsbD_setWidth] at this
      by_cases hn : n < 32
      · simpa [hn] using this
      · exact BitVec.getLsbD_of_ge _ n (by omega)
    obtain ⟨c, hc, hlc⟩ := rtFfs_lowest hrow'
    have hbit : ∀ n, ((s.readyTable r).setWidth 32).getLsbD n = (s.readyTable r).getLsbD n := by
      intro n
      rw [BitVec.getLsbD_setWidth]
      by_cases hn : n < 32
      · simp [hn]
      · simp [hn, BitVec.getLsbD_of_ge (s.readyTable r) n (by omega)]
    have hc8 : c < 8 := by
      by_contra hge
      have := hlc.bit
      rw [hbit, BitVec.getLsbD_of_ge _ c (by omega)] at this
      exact Bool.noConfusion this
    rw [if_neg hg, hr, Nat.add_sub_cancel, if_neg hrow, hc]
    refine ⟨8 * r + c, by congr 1; rw [Nat.shiftLeft_eq]; omega, ?_, fun m hm => ?_⟩
    · rw [show (8 * r + c) / 8 = r by omega, show (8 * r + c) % 8 = c by omega, ← hbit]
      exact hlc.bit
    · have h1 := hlr.le (row_of_bit m hm)
      by_cases heq : m / 8 = r
      · rw [heq, ← hbit] at hm
        have := hlc.le hm
        omega
      · omega
  · simp only [if_neg hw] at hp ⊢
    have hg : s.readyGroup ≠ 0#32 := by
      intro h0
      rw [h0, BitVec.getLsbD_zero] at hp
      exact Bool.noConfusion hp
    obtain ⟨n, hn, hl⟩ := rtFfs_lowest hg
    rw [if_neg hg, hn, Nat.add_sub_cancel]
    exact ⟨n, rfl, hl.bit, fun m hm => hl.le hm⟩

omit [DecidableEq T] [DecidableEq Q] in
/-- The group is empty exactly when no bit is set. -/
theorem readyGroup_eq_zero_iff (h : s.GroupOk cfg) :
    s.readyGroup = 0#32 ↔ ∀ n, s.readyBit cfg n = false := by
  by_cases hw : cfg.wide = true
  · constructor
    · intro h0 n
      have hrow : s.readyTable (n / 8) = 0#8 := by
        by_contra hne
        have := (h hw (n / 8)).2 hne
        rw [h0, BitVec.getLsbD_zero] at this
        exact Bool.noConfusion this
      unfold readyBit
      rw [if_pos hw, hrow, BitVec.getLsbD_zero]
    · intro h0
      rw [eq_zero_iff]
      intro r
      by_contra hr
      refine (h hw r).1 (by simpa using hr) ((eq_zero_iff _).2 fun i => ?_)
      by_cases hi : i < 8
      · have := h0 (8 * r + i)
        unfold readyBit at this
        rwa [if_pos hw, show (8 * r + i) / 8 = r by omega, show (8 * r + i) % 8 = i by omega] at this
      · exact BitVec.getLsbD_of_ge _ i (by omega)
  · rw [eq_zero_iff]
    unfold readyBit
    simp only [if_neg hw]

end Scheduler

end RtThread.Sched
