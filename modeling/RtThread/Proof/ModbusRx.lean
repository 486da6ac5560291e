import RtThread.Spec.Modbus

/-!
# The receive buffer of the Modbus sensors

`clean_buff` counts from `AM_BUFF_SIZE + 1` down to one, so that each call of it writes two bytes behind the buffer
and leaves the first byte as it is; and nothing stops `AM_uart_irqhandler` at the end of the buffer.

* `step_cases`: what a step does.
* `rx_kept`: **what the buffer keeps**, and in which runs.
* `bounds_broken`: a step that is not allowed there leads behind the buffer.
-/

namespace RtThread.Modbus.Rx

variable {s s' : State} {a : Act} {g : Log}

/-- **What a step does**, with the index that it writes at. -/
theorem step_cases (h : s.step a = some s') :
    (∃ b, a = .byte b ∧ s.writes a = some s.uart_p.toNat ∧ s' = s.amUartIrqhandler b) ∨
    (a = .getAmbuff ∧ s.writes a = none ∧ s' = { s with pc := .get 0 }) ∨
    (a = .cleanBuff ∧ s.writes a = none ∧ s' = { s with uart_p := 0, pc := .clean (AM_BUFF_SIZE + 1) }) ∨
    (a = .main ∧ s.writes a = none ∧ ∃ i < 20, s.pc = .get i ∧
      s' = { s with rebuff := Function.update s.rebuff i (s.buff i), pc := .get (i + 1) }) ∨
    (∃ i, a = .main ∧ s.writes a = some (i + 1) ∧ s.pc = .clean (i + 1) ∧
      s' = { s.write (i + 1) 0 with pc := .clean i }) ∨
    (a = .main ∧ s.writes a = none ∧ (∀ i, s.pc ≠ .clean (i + 1)) ∧ s' = { s with pc := .idle }) := by
  cases a with
  | byte b =>
    cases h
    exact .inl ⟨b, rfl, rfl, rfl⟩
  | getAmbuff =>
    simp only [State.step] at h
    split at h
    · cases h
      exact .inr (.inl ⟨rfl, rfl, rfl⟩)
    · cases h
  | cleanBuff =>
    simp only [State.step] at h
    split at h
    · cases h
      exact .inr (.inr (.inl ⟨rfl, rfl, rfl⟩))
    · cases h
  | main =>
    simp only [State.step, State.main] at h
    unfold State.writes
    split at h
    · cases h
    · rename_i i hpc
      split at h
      · rename_i hi
        cases h
        exact .inr (.inr (.inr (.inl ⟨rfl, by rw [hpc], i, hi, hpc, rfl⟩)))
      · cases h
        refine .inr (.inr (.inr (.inr (.inr ⟨rfl, by rw [hpc], fun i => ?_, rfl⟩))))
        rw [hpc]
        nofun
    · rename_i hpc
      cases h
      refine .inr (.inr (.inr (.inr (.inr ⟨rfl, by rw [hpc], fun i => ?_, rfl⟩))))
      rw [hpc]
      nofun
    · rename_i i hpc
      cases h
      exact .inr (.inr (.inr (.inr (.inl ⟨i, rfl, by rw [hpc], hpc, rfl⟩))))

/-- The number of bytes is within bounds as long as there is room. -/
theorem uart_p_le {p : State × Log} (h : Runs HasRoom p) : p.1.uart_p.toNat ≤ AM_BUFF_SIZE := by
  refine Run.Reach.inv_logged (I := fun s _ => s.uart_p.toNat ≤ AM_BUFF_SIZE) ?_ ?_ h
  · intro s hinit
    rw [hinit.2.1]
    exact Nat.zero_le _
  · intro s g a s' hle hroom hs
    obtain ⟨b, rfl, -, rfl⟩ | ⟨rfl, -, rfl⟩ | ⟨rfl, -, rfl⟩ | ⟨rfl, -, i, -, -, rfl⟩ | ⟨i, rfl, -, -, rfl⟩ |
      ⟨rfl, -, -, rfl⟩ := step_cases hs
    · have hlt : s.uart_p.toNat < 1024 := hroom
      have hnext : (s.uart_p + 1).toNat = s.uart_p.toNat + 1 := by
        rw [BitVec.toNat_add]
        exact Nat.mod_eq_of_lt (by change _ + 1 < _; omega)
      show (s.uart_p + 1).toNat ≤ 1024
      omega
    · exact hle
    · exact Nat.zero_le _
    · exact hle
    · exact hle
    · exact hle

/-- Without `clean_buff` the main loop does not write, and a byte is written where there is room. -/
theorem writes_lt {p : State × Log} (h : Runs KeepsBounds p) : ∀ i ∈ p.2.writes, i < AM_BUFF_SIZE := by
  have hinv : (∀ i, p.1.pc ≠ .clean i) ∧ ∀ i ∈ p.2.writes, i < AM_BUFF_SIZE := by
    refine Run.Reach.inv_logged (I := fun s g => (∀ i, s.pc ≠ .clean i) ∧ ∀ i ∈ g.writes, i < AM_BUFF_SIZE) ?_ ?_ h
    · intro s hinit
      rw [hinit.2.2]
      exact ⟨nofun, nofun⟩
    · rintro s g a s' ⟨hpc, hwrites⟩ hok hs
      have hsame : s.writes a = none → ∀ i ∈ g.writes ++ (s.writes a).toList, i < AM_BUFF_SIZE := by
        intro hnone
        rw [hnone, Option.toList_none, List.append_nil]
        exact hwrites
      obtain ⟨b, rfl, hw, rfl⟩ | ⟨rfl, hw, rfl⟩ | ⟨rfl, -, rfl⟩ | ⟨rfl, hw, i, -, -, rfl⟩ | ⟨i, rfl, -, hi, -⟩ |
        ⟨rfl, hw, -, rfl⟩ := step_cases hs
      · refine ⟨hpc, fun i hi => ?_⟩
        obtain hi | hi := List.mem_append.1 hi
        · exact hwrites i hi
        · rw [List.mem_singleton.1 hi]
          exact hok
      · exact ⟨nofun, hsame hw⟩
      · exact hok.elim
      · exact ⟨nofun, hsame hw⟩
      · exact absurd hi (hpc _)
      · exact ⟨nofun, hsame hw⟩
  exact hinv.2

/-- What is clear since the last byte: the bytes that the loop of `clean_buff` has counted past, and the first one,
which it never reaches; and all that has been copied since. -/
def Clear (s : State) : Quiet → Prop
  | .no => True
  | .cleaning => s.buff 0 = 0 ∧ ∃ i, s.pc = .clean i ∧ ∀ j < AM_BUFF_SIZE, i < j → s.buff j = 0
  | .cleaned => (∀ i < AM_BUFF_SIZE, s.buff i = 0) ∧ ∀ i, s.pc = .get i → ∀ j < i, s.rebuff j = 0

theorem clear_step (h : Clear s g.quiet) (hok : FirstClear s a) (hs : s.step a = some s') :
    Clear s' (log s a s' g).quiet := by
  obtain ⟨b, rfl, -, rfl⟩ | ⟨rfl, -, rfl⟩ | ⟨rfl, -, rfl⟩ | ⟨rfl, -, i, hi, hpc, rfl⟩ | ⟨i, rfl, -, hpc, rfl⟩ |
    ⟨rfl, -, hpc, rfl⟩ := step_cases hs
  · trivial
  · -- `get_ambuff` begins
    simp only [log]
    cases hq : g.quiet with
    | no => trivial
    | cleaning =>
      rw [hq] at h
      obtain ⟨-, i, hi, -⟩ := h
      simp only [State.step, hi] at hs
      cases hs
    | cleaned =>
      rw [hq] at h
      refine ⟨h.1, fun i hi j hj => ?_⟩
      cases hi
      exact absurd hj (Nat.not_lt_zero j)
  · -- `clean_buff` begins
    refine ⟨hok, AM_BUFF_SIZE + 1, rfl, fun j hj hlt => ?_⟩
    omega
  · -- a byte is copied
    simp only [log]
    rw [if_neg (by simp)]
    cases hq : g.quiet with
    | no => trivial
    | cleaning =>
      rw [hq] at h
      obtain ⟨-, k, hk, -⟩ := h
      rw [hpc] at hk
      cases hk
    | cleaned =>
      rw [hq] at h
      refine ⟨h.1, fun k hk j hj => ?_⟩
      cases hk
      show Function.update s.rebuff i (s.buff i) j = 0
      by_cases hji : j = i
      · subst hji
        rw [Function.update_self]
        exact h.1 j (by change j < 1024; omega)
      · rw [Function.update_of_ne hji]
        exact h.2 i hpc j (by omega)
  · -- a byte is cleared
    simp only [log]
    rw [if_neg (by simp)]
    have hzero : ∀ j, s.buff j = 0 → (s.write (i + 1) 0).buff j = 0 := by
      intro j hj
      show Function.update s.buff (i + 1) 0 j = 0
      by_cases hji : j = i + 1
      · rw [hji, Function.update_self]
      · rw [Function.update_of_ne hji, hj]
    cases hq : g.quiet with
    | no => trivial
    | cleaning =>
      rw [hq] at h
      obtain ⟨hfirst, k, hk, hbehind⟩ := h
      rw [hpc] at hk
      cases hk
      refine ⟨hzero 0 hfirst, i, rfl, fun j hj hij => ?_⟩
      by_cases hji : j = i + 1
      · show Function.update s.buff (i + 1) 0 j = 0
        rw [hji, Function.update_self]
      · exact hzero j (hbehind j hj (by omega))
    | cleaned =>
      rw [hq] at h
      exact ⟨fun j hj => hzero j (h.1 j hj), nofun⟩
  · -- a function returns
    simp only [log]
    cases hq : g.quiet with
    | no => rw [if_neg (by simp)]; trivial
    | cleaning =>
      rw [hq] at h
      obtain ⟨hfirst, k, hk, hbehind⟩ := h
      cases k with
      | zero =>
        rw [if_pos ⟨rfl, trivial⟩]
        refine ⟨fun j hj => ?_, nofun⟩
        by_cases hj0 : j = 0
        · rw [hj0]
          exact hfirst
        · exact hbehind j hj (Nat.pos_of_ne_zero hj0)
      | succ k => exact absurd hk (hpc k)
    | cleaned =>
      rw [hq] at h
      rw [if_neg (by simp)]
      exact ⟨h.1, nofun⟩

/-- What `clean_buff` has cleared is clear where its first byte was clear before. -/
theorem clear_run {p : State × Log} (h : Runs FirstClear p) (hq : p.2.quiet = .cleaned) :
    (∀ i < AM_BUFF_SIZE, p.1.buff i = 0) ∧ ∀ i, p.1.pc = .get i → ∀ j < i, p.1.rebuff j = 0 := by
  have hclear : Clear p.1 p.2.quiet := by
    have hstart : ∀ s : State, s.Init → Clear s (Log.start s).quiet := fun _ _ => trivial
    refine Run.Reach.inv_logged (I := fun s g => Clear s g.quiet) hstart ?_ h
    exact fun s g a s' h hok hs => clear_step h hok hs
  rw [hq] at hclear
  exact hclear

/-- **What the buffer keeps**: everything as long as a byte finds room and `clean_buff` is not called, the number of
bytes as long as a byte finds room, and the zeros of `clean_buff` where the first byte was clear before. -/
theorem rx_kept (p : State × Log) :
    (Runs KeepsBounds p → Sound p) ∧
    (Runs HasRoom p → p.1.uart_p.toNat ≤ AM_BUFF_SIZE) ∧
    (Runs FirstClear p → p.2.quiet = .cleaned →
      (∀ i < AM_BUFF_SIZE, p.1.buff i = 0) ∧ ∀ i, p.1.pc = .get i → ∀ j < i, p.1.rebuff j = 0) := by
  refine ⟨fun h => ?_, uart_p_le, clear_run⟩
  have hroom : Runs HasRoom p := by
    apply h.mono
    intro p a hok
    cases a with
    | byte b => exact hok
    | _ => trivial
  have hfirst : Runs FirstClear p := by
    apply h.mono
    intro p a hok
    cases a with
    | cleanBuff => exact hok.elim
    | _ => trivial
  exact ⟨writes_lt h, uart_p_le hroom, fun hq => (clear_run hfirst hq).1, fun hq => (clear_run hfirst hq).2⟩

/-- **A step that the bounds do not allow breaks them**: a byte without room at once, and `clean_buff` with the next
step of the main loop. -/
theorem bounds_broken (hok : ¬KeepsBounds s a) (hs : s.step a = some s') :
    ¬Sound (s', log s a s' g) ∨ ∃ s'', s'.step .main = some s'' ∧ ¬Sound (s'', log s' .main s'' (log s a s' g)) := by
  cases a with
  | byte b =>
    left
    intro h
    exact hok (h.writes _ (List.mem_append_right _ (List.mem_singleton_self _)))
  | cleanBuff =>
    right
    simp only [State.step] at hs
    split at hs
    · cases hs
      refine ⟨_, rfl, fun h => ?_⟩
      have hlast := h.writes (AM_BUFF_SIZE + 1) (List.mem_append_right _ (List.mem_singleton_self _))
      exact absurd hlast (by decide)
    · cases hs
  | _ => exact absurd trivial hok

/-- The buffer at startup. -/
def fresh : State := ⟨fun _ => 0, 0, .idle, fun _ => 0⟩

theorem fresh_init : fresh.Init := ⟨fun _ _ => rfl, rfl, rfl⟩

/-- A byte is received, and the first two are copied. -/
theorem rx_kept_copy : ∃ p : State × Log, p.1.pc = .get 2 ∧ p.2.writes = [0] ∧ Sound p := by
  obtain ⟨p, hp, h⟩ := Run.Reach.exec_logged State.step Log.start log KeepsBounds fresh_init
    [.byte 7, .getAmbuff, .main, .main] (fun p => decide (p.1.pc = .get 2) && decide (p.2.writes = [0]))
    (by decide)
  rw [Bool.and_eq_true, decide_eq_true_eq, decide_eq_true_eq] at h
  exact ⟨p, h.1, h.2, (rx_kept p).1 hp⟩

/-- **`clean_buff` overruns the buffer.** -/
theorem cleanBuff_overruns : ¬∀ p, Runs Run.Any p → Sound p := by
  intro h
  obtain ⟨p, hp, hmem⟩ := Run.Reach.exec_logged State.step Log.start log Run.Any fresh_init [.cleanBuff, .main]
    (fun p => decide (1025 ∈ p.2.writes)) (by decide)
  exact absurd ((h p hp).writes 1025 (of_decide_eq_true hmem)) (by decide)

end RtThread.Modbus.Rx
