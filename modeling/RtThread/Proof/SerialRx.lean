import RtThread.Spec.SerialRx
import Mathlib.Tactic.SplitIfs

/-!
# Receive FIFOs keep the newest bytes

`Holds bufsz c f q`: from the get index on lie the bytes of `q`, at most `c`, and the put index is behind them.
The flag says that there are `c`, and it is set where the indices alone do not tell full from empty.

* `Holds.recv`: bytes go in, over the oldest ones.
* `Holds.pop`: bytes come out.
* `fifo_newest`: the reads return the bytes of the queue.
-/

namespace RtThread.Serial

open Cyclic

structure Holds (bufsz c : ℕ) (f : RxFifo) (q : List Byte) : Prop where
  put_lt : f.putIndex < bufsz
  get_lt : f.getIndex < bufsz
  length_le : q.length ≤ c
  put_eq : f.putIndex = (f.getIndex + q.length) % bufsz
  content_eq : contents f.buffer bufsz f.getIndex q.length = q
  length_of_full : f.isFull = true → q.length = c
  full_of_length : q.length = bufsz → f.isFull = true

variable {bufsz c : ℕ} {f : RxFifo} {q d : List Byte}

theorem next_eq {i : ℕ} (hi : i < bufsz) (hb : bufsz ≤ 32768) : next bufsz i = (i + 1) % bufsz := by
  have hmod : uint16 (i + 1) = i + 1 := Nat.mod_eq_of_lt (by omega)
  unfold next
  rw [hmod]
  split
  · rw [show i + 1 = bufsz by omega, Nat.mod_self]
  · exact (Nat.mod_eq_of_lt (by omega)).symm

/-- An index that has moved by no more than the buffer. -/
theorem mod_eq {i n : ℕ} (hi : i < bufsz) (hn : n ≤ bufsz) :
    (i + n) % bufsz = if i + n < bufsz then i + n else i + n - bufsz := by
  split
  · exact Nat.mod_eq_of_lt (by omega)
  · rw [Nat.mod_eq_sub_mod (by omega), Nat.mod_eq_of_lt (by omega)]

theorem length_recv : (Queue.recv c q d).length = min (q.length + d.length) c := by
  rw [Queue.recv, List.rtake, List.length_drop, List.length_append]
  omega

/-- Bytes that go in one after the other go in together. -/
theorem recv_recv (q d e : List Byte) : Queue.recv c (Queue.recv c q d) e = Queue.recv c q (d ++ e) := by
  unfold Queue.recv List.rtake
  rw [← List.drop_append_of_le_length (by omega), List.drop_drop, ← List.append_assoc]
  congr 1
  simp only [List.length_append, List.length_drop]
  omega

namespace Holds

theorem opened (h0 : 0 < bufsz) : Holds bufsz c .opened [] := by
  refine ⟨h0, h0, Nat.zero_le _, (Nat.zero_mod _).symm, rfl, nofun, ?_⟩
  intro hlen
  exact absurd hlen (Nat.ne_of_lt h0)

section

variable (h : Holds bufsz c f q)
include h

/-- The put index, as the sum that has wrapped or not. -/
theorem put_cases (hcb : c ≤ bufsz) :
    f.putIndex = if f.getIndex + q.length < bufsz then f.getIndex + q.length else f.getIndex + q.length - bufsz := by
  rw [h.put_eq]
  exact mod_eq h.get_lt (h.length_le.trans hcb)

theorem recvedLen (hc : 0 < c) (hcb : c ≤ bufsz) : serialFifoCalcRecvedLen bufsz f = q.length := by
  have hput := h.put_cases hcb
  have hget := h.get_lt
  have hle := h.length_le
  have hfull := h.length_of_full
  have hlen := h.full_of_length
  unfold serialFifoCalcRecvedLen
  cases hf : f.isFull with
  | true =>
    have := hfull hf
    simp only [if_true]
    split at hput <;> split <;> try split
    all_goals omega
  | false =>
    have hne : q.length ≠ bufsz := fun hb => by rw [hlen hb] at hf; cases hf
    simp only [Bool.false_eq_true, if_false]
    split at hput <;> split <;> try split
    all_goals omega

/-- The bytes in front. -/
theorem front {n : ℕ} (hn : n ≤ q.length) : contents f.buffer bufsz f.getIndex n = q.take n := by
  have hsplit := h.content_eq
  rw [← Nat.add_sub_cancel' hn, contents_append] at hsplit
  conv_rhs => rw [← hsplit, List.take_left' length_contents]

/-- **Bytes come out.** -/
theorem pop {n : ℕ} (hn : n ≤ q.length) (hc : 0 < c) (hcb : c ≤ bufsz) {b : Bool}
    (hb : b = if n = 0 then f.isFull else false) :
    Holds bufsz c { f with getIndex := (f.getIndex + n) % bufsz, isFull := b } (q.drop n) := by
  have hpos : 0 < bufsz := hc.trans_le hcb
  have hle := h.length_le
  have hlen := List.length_drop (i := n) (l := q)
  refine ⟨h.put_lt, Nat.mod_lt _ hpos, by omega, ?_, ?_, ?_, ?_⟩
  · show f.putIndex = ((f.getIndex + n) % bufsz + (q.drop n).length) % bufsz
    rw [Nat.mod_add_mod, hlen, show f.getIndex + n + (q.length - n) = f.getIndex + q.length by omega]
    exact h.put_eq
  · show contents f.buffer bufsz ((f.getIndex + n) % bufsz) (q.drop n).length = q.drop n
    have hsplit := h.content_eq
    rw [← Nat.add_sub_cancel' hn, contents_append] at hsplit
    rw [contents_mod, hlen]
    conv_rhs => rw [← hsplit, List.drop_left' length_contents]
  · show b = true → (q.drop n).length = c
    intro hfull
    by_cases hn0 : n = 0
    · rw [if_pos hn0] at hb
      rw [hlen, hn0, Nat.sub_zero]
      exact h.length_of_full (hb ▸ hfull)
    · rw [if_neg hn0] at hb
      rw [hb] at hfull
      cases hfull
  · show (q.drop n).length = bufsz → b = true
    intro hfull
    have hn0 : n = 0 := by omega
    rw [if_pos hn0] at hb
    rw [hb]
    exact h.full_of_length (by omega)

/-- **Bytes go in**, over the oldest ones if there are more than `c`. -/
theorem recv (hc : 0 < c) (hcb : c ≤ bufsz) (hd : d.length ≤ c) {b : Bool}
    (hb : b = true → c ≤ q.length + d.length) (hfull : bufsz ≤ q.length + d.length → b = true) :
    Holds bufsz c ⟨write f.buffer bufsz f.putIndex d, (f.putIndex + d.length) % bufsz,
      (f.getIndex + (q.length + d.length - c)) % bufsz, b⟩ (Queue.recv c q d) := by
  have hpos : 0 < bufsz := hc.trans_le hcb
  have hle := h.length_le
  have hlen : (Queue.recv c q d).length = q.length + d.length - (q.length + d.length - c) := by
    rw [length_recv]
    omega
  refine ⟨Nat.mod_lt _ hpos, Nat.mod_lt _ hpos, by omega, ?_, ?_, ?_, ?_⟩
  · show (f.putIndex + d.length) % bufsz =
      ((f.getIndex + (q.length + d.length - c)) % bufsz + (Queue.recv c q d).length) % bufsz
    rw [hlen, h.put_eq, Nat.mod_add_mod, Nat.mod_add_mod]
    congr 1
    omega
  · show contents (write f.buffer bufsz f.putIndex d) bufsz ((f.getIndex + (q.length + d.length - c)) % bufsz)
      (Queue.recv c q d).length = _
    rw [hlen, contents_mod, h.put_eq, write_mod, contents_overwrite (by omega) (by omega), h.content_eq,
      Queue.recv, List.rtake, List.length_append]
  · intro hfl
    have := hb hfl
    omega
  · intro hfl
    exact hfull (by omega)

end

/-! ### Interrupt mode -/

theorem rxChar (h : Holds bufsz (max 1 (bufsz - 1)) f q) (hb : bufsz ≤ 32768) (ch : Byte) :
    Holds bufsz (max 1 (bufsz - 1)) (rxChar bufsz f ch) (Queue.recv (max 1 (bufsz - 1)) q [ch]) := by
  have hput := h.put_cases (by have := h.put_lt; omega)
  have hle := h.length_le
  have hpl := h.put_lt
  have hgl := h.get_lt
  have hnp := next_eq hpl hb
  have hng := next_eq hgl hb
  have hupd : write f.buffer bufsz f.putIndex [ch] = Function.update f.buffer f.putIndex ch := by
    rw [write, write, Nat.mod_eq_of_lt hpl]
  -- the put index meets the get index just where one byte too many has come in
  by_cases hmeet : next bufsz f.putIndex = f.getIndex
  · have hmany : q.length = max 1 (bufsz - 1) ∨ bufsz = 1 := by
      rw [hnp, mod_eq hpl (by omega)] at hmeet
      split_ifs at hput hmeet <;> omega
    have hnew := h.recv (d := [ch]) (b := true) (by omega) (by omega) (by rw [List.length_singleton]; omega)
      (fun _ => by rw [List.length_singleton]; omega) (fun _ => rfl)
    have hget : (f.getIndex + (q.length + 1 - max 1 (bufsz - 1))) % bufsz = next bufsz f.getIndex := by
      rcases hmany with hlen | hone
      · rw [hng, hlen, Nat.add_sub_cancel_left]
      · rw [hng, hone, Nat.mod_one, Nat.mod_one]
    rw [hupd, List.length_singleton, hget, ← hnp] at hnew
    unfold Serial.rxChar
    rw [if_pos hmeet]
    exact hnew
  · have hroom : q.length < max 1 (bufsz - 1) ∧ 1 < bufsz := by
      rw [hnp, mod_eq hpl (by omega)] at hmeet
      split_ifs at hput hmeet <;> omega
    have hnew := h.recv (d := [ch]) (b := f.isFull) (by omega) (by omega) (by rw [List.length_singleton]; omega)
      (fun hf => by rw [h.length_of_full hf]; omega) (fun hl => by rw [List.length_singleton] at hl; omega)
    rw [hupd, List.length_singleton, ← hnp, show q.length + 1 - max 1 (bufsz - 1) = 0 by omega, Nat.add_zero,
      Nat.mod_eq_of_lt hgl] at hnew
    unfold Serial.rxChar
    rw [if_neg hmeet]
    exact hnew

theorem rxInd (h : Holds bufsz (max 1 (bufsz - 1)) f q) (hb : bufsz ≤ 32768) (d : List Byte) :
    Holds bufsz (max 1 (bufsz - 1)) (rxInd bufsz f d) (Queue.recv (max 1 (bufsz - 1)) q d) := by
  induction d generalizing f q with
  | nil =>
    have hle := h.length_le
    rw [Queue.recv, List.append_nil, List.rtake, Nat.sub_eq_zero_of_le hle, List.drop_zero]
    exact h
  | cons ch d ih =>
    rw [show ch :: d = [ch] ++ d from rfl, ← recv_recv]
    exact ih (h.rxChar hb ch)

theorem readChar_nil (h : Holds bufsz c f []) (hc : 0 < c) : readChar bufsz f = none := by
  have hput := h.put_eq
  rw [List.length_nil, Nat.add_zero, Nat.mod_eq_of_lt h.get_lt] at hput
  have hnot : f.isFull = false := by
    rw [← Bool.not_eq_true]
    intro hf
    exact absurd (h.length_of_full hf) (Nat.ne_of_lt hc)
  unfold readChar
  rw [if_pos ⟨hput.symm, hnot⟩]

theorem readChar_cons {ch : Byte} (h : Holds bufsz c f (ch :: q)) (hc : 0 < c) (hcb : c ≤ bufsz)
    (hb : bufsz ≤ 32768) : ∃ f', readChar bufsz f = some (ch, f') ∧ Holds bufsz c f' q := by
  have hput := h.put_cases hcb
  have hgl := h.get_lt
  have hdata : ¬(f.getIndex = f.putIndex ∧ f.isFull = false) := by
    rintro ⟨hmeet, hnot⟩
    have hle := h.length_le
    have hlen : (ch :: q).length = bufsz := by
      rw [List.length_cons] at hput hle ⊢
      split_ifs at hput <;> omega
    rw [h.full_of_length hlen] at hnot
    cases hnot
  have hch : f.buffer f.getIndex = ch := by
    have hfront := h.front (n := 1) (by rw [List.length_cons]; omega)
    rw [contents_cons, contents_zero, Nat.mod_eq_of_lt hgl] at hfront
    exact (List.cons.inj hfront).1
  have hpop := h.pop (n := 1) (b := false) (by rw [List.length_cons]; omega) hc hcb rfl
  refine ⟨{ f with getIndex := next bufsz f.getIndex, isFull := false }, ?_, ?_⟩
  · unfold readChar
    rw [if_neg hdata, hch]
  · rw [next_eq hgl hb]
    exact hpop

theorem serialIntRx (hb : bufsz ≤ 32768) (length : ℕ) (arrivals : List (List Byte))
    (h : Holds bufsz (max 1 (bufsz - 1)) f q) :
    (serialIntRx bufsz length arrivals f).1 = (Queue.readEach (max 1 (bufsz - 1)) length arrivals q).1 ∧
      Holds bufsz (max 1 (bufsz - 1)) (serialIntRx bufsz length arrivals f).2
        (Queue.readEach (max 1 (bufsz - 1)) length arrivals q).2 := by
  induction length generalizing arrivals f q with
  | zero => exact ⟨rfl, h⟩
  | succ length ih =>
    have hpos := h.put_lt
    have hin := h.rxInd hb (arrivals.headD [])
    cases hq : Queue.recv (max 1 (bufsz - 1)) q (arrivals.headD []) with
    | nil =>
      rw [hq] at hin
      have hread := hin.readChar_nil (by omega)
      simp only [Serial.serialIntRx, Queue.readEach, hq, hread]
      exact ⟨trivial, hin⟩
    | cons ch q' =>
      rw [hq] at hin
      obtain ⟨f', hread, hf'⟩ := hin.readChar_cons (by omega) (by omega) hb
      simp only [Serial.serialIntRx, Queue.readEach, hq, hread]
      obtain ⟨hdata, hrest⟩ := ih arrivals.tail hf'
      exact ⟨by rw [hdata], hrest⟩

/-! ### DMA mode -/

/-- The put index and the flag, in terms of the length. -/
theorem putIndexCases (h : Holds bufsz bufsz f q) (hb : bufsz ≤ 32768) {len : ℕ} (hlen : len ≤ bufsz) :
    putIndexCases bufsz f len = ((f.putIndex + len) % bufsz, decide (bufsz ≤ q.length + len)) := by
  have hput := h.put_cases le_rfl
  have hpl := h.put_lt
  have hgl := h.get_lt
  have hle := h.length_le
  have hfull : f.isFull = true ↔ q.length = bufsz := ⟨h.length_of_full, h.full_of_length⟩
  have hsum : uint16 (f.putIndex + len) = f.putIndex + len := Nat.mod_eq_of_lt (by omega)
  have hmod := mod_eq hpl hlen
  have hput' : (Serial.putIndexCases bufsz f len).1 = (f.putIndex + len) % bufsz := by
    simp only [Serial.putIndexCases, hsum, hmod]
    split_ifs <;> simp only <;> omega
  have hfull' : (Serial.putIndexCases bufsz f len).2 = true ↔ bufsz ≤ q.length + len := by
    simp only [Serial.putIndexCases, hsum, hmod]
    split_ifs at hput ⊢ <;> simp only [hfull, true_iff] <;> omega
  refine Prod.ext hput' ?_
  rw [Bool.eq_iff_iff, hfull', decide_eq_true_iff]

theorem rxDmadone (h : Holds bufsz bufsz f q) (hb : bufsz ≤ 32768) (hd : d.length ≤ bufsz) :
    Holds bufsz bufsz (rxDmadone bufsz f d) (Queue.recv bufsz q d) := by
  have hpl := h.put_lt
  have hle := h.length_le
  have hput := h.put_cases le_rfl
  have hstored : Holds bufsz bufsz f q := h
  have hnew := h.recv (d := d) (b := decide (bufsz ≤ q.length + d.length)) (by omega) le_rfl hd of_decide_eq_true
    (fun hl => decide_eq_true hl)
  have hcases : Serial.putIndexCases bufsz { f with buffer := write f.buffer bufsz f.putIndex d } d.length =
      Serial.putIndexCases bufsz f d.length := rfl
  have hget : (f.getIndex + (q.length + d.length - bufsz)) % bufsz =
      if bufsz ≤ q.length + d.length then (f.putIndex + d.length) % bufsz else f.getIndex := by
    split_ifs with hge
    · rw [h.put_eq, Nat.mod_add_mod, show f.getIndex + q.length + d.length =
        f.getIndex + (q.length + d.length - bufsz) + bufsz by omega, Nat.add_mod_right]
    · rw [show q.length + d.length - bufsz = 0 by omega, Nat.add_zero, Nat.mod_eq_of_lt h.get_lt]
  have hlt : (f.getIndex + (q.length + d.length - bufsz)) % bufsz < bufsz := Nat.mod_lt _ (by omega)
  unfold Serial.rxDmadone dmaRecvUpdatePutIndex
  rw [hcases, h.putIndexCases hb hd]
  simp only [decide_eq_true_eq, ← hget, if_neg (Nat.not_le.2 hlt)]
  exact hnew

theorem serialDmaRx (h : Holds bufsz bufsz f q) (hb : bufsz ≤ 32768) (length : ℕ) :
    ∃ f', serialDmaRx bufsz f length = some (q.take length, f') ∧ Holds bufsz bufsz f' (q.drop length) := by
  have hgl := h.get_lt
  have hle := h.length_le
  have hrecved := h.recvedLen (by omega) le_rfl
  have hmin : (if length < q.length then length else q.length) = min length q.length := by
    split_ifs <;> omega
  have hn : min length q.length ≤ q.length := Nat.min_le_right _ _
  have htake : q.take (min length q.length) = q.take length := List.take_eq_take_min.symm
  have hdrop : q.drop (min length q.length) = q.drop length := List.drop_eq_drop_min.symm
  have hdata : (if f.getIndex + min length q.length < bufsz then memcpy f f.getIndex (min length q.length)
      else memcpy f f.getIndex (bufsz - f.getIndex) ++ memcpy f 0 (min length q.length + f.getIndex - bufsz)) =
      q.take length := by
    rw [← htake, ← h.front hn]
    split_ifs with hfit
    · exact slice_eq (by omega)
    · rw [show min length q.length + f.getIndex - bufsz = min length q.length - (bufsz - f.getIndex) by omega]
      exact slice_append (by omega) (by omega) (by omega)
  have hsum : uint16 (f.getIndex + min length q.length) = f.getIndex + min length q.length :=
    Nat.mod_eq_of_lt (by omega)
  have hpop := h.pop hn (by omega) le_rfl rfl
  rw [hdrop] at hpop
  unfold Serial.serialDmaRx dmaRecvUpdateGetIndex
  simp only [hrecved, hmin, hdata, if_pos hn, hsum, Option.map_some]
  refine ⟨_, rfl, ?_⟩
  convert hpop using 2
  · rw [mod_eq hgl (by omega)]
    split_ifs <;> omega
  · cases f.isFull <;> simp

end Holds

/-- **An interrupt or a read** does to the FIFO what it does to the queue. -/
theorem step_newest {mode : Mode} (hb : bufsz ≤ 32768) (h : Holds bufsz (capacity bufsz mode) f q)
    (e : Events bufsz mode) :
    (step bufsz f e).1 = (Queue.step bufsz (capacity bufsz mode) q e).1 ∧
      Holds bufsz (capacity bufsz mode) (step bufsz f e).2 (Queue.step bufsz (capacity bufsz mode) q e).2 := by
  obtain ⟨e, he⟩ := e
  cases mode with
  | int =>
    cases e with
    | rxInd d => exact ⟨rfl, h.rxInd hb d⟩
    | intRx length arrivals =>
      obtain ⟨hdata, hrest⟩ := h.serialIntRx hb length arrivals
      exact ⟨congrArg some hdata, hrest⟩
    | rxDmadone d => exact he.elim
    | dmaRx length => exact he.elim
  | dma =>
    cases e with
    | rxInd d => exact he.elim
    | intRx length arrivals => exact he.elim
    | rxDmadone d => exact ⟨rfl, h.rxDmadone hb he⟩
    | dmaRx length =>
      obtain ⟨f', hread, hf'⟩ := h.serialDmaRx hb length
      simp only [step, hread, Queue.step]
      exact ⟨trivial, hf'⟩

theorem capacity_pos (h0 : 0 < bufsz) (mode : Mode) : 0 < capacity bufsz mode ∧ capacity bufsz mode ≤ bufsz := by
  cases mode with
  | int =>
    show 0 < max 1 (bufsz - 1) ∧ max 1 (bufsz - 1) ≤ bufsz
    omega
  | dma => exact ⟨h0, le_rfl⟩

/-- **Receive FIFOs keep the newest bytes in order**: the reads return what the queue returns, the indices stay in
the buffer, and the length is that of the queue. -/
theorem fifo_newest (mode : Mode) (h0 : 1 ≤ bufsz) (hb : bufsz ≤ 32768) (es : List (Events bufsz mode)) :
    let fifo := Run.trace (step bufsz) .opened es
    let queue := Run.trace (Queue.step bufsz (capacity bufsz mode)) [] es
    fifo.1 = queue.1 ∧ fifo.2.putIndex < bufsz ∧ fifo.2.getIndex < bufsz ∧
      serialFifoCalcRecvedLen bufsz fifo.2 = queue.2.length := by
  obtain ⟨hc, hcb⟩ := capacity_pos h0 mode
  obtain ⟨houts, h⟩ := Run.trace_sim (R := Holds bufsz (capacity bufsz mode))
    (fun f q e h => step_newest hb h e) (Holds.opened h0) es
  exact ⟨houts, h.put_lt, h.get_lt, h.recvedLen hc hcb⟩

/-- Three bytes come in where there is room for two, and one more while they are read. -/
theorem fifo_newest_three : 1 ≤ 3 ∧ 3 ≤ 32768 ∧
    (Run.trace (step 3) .opened
      [(⟨.rxInd [1, 2, 3], trivial⟩ : Events 3 .int), ⟨.intRx 5 [[], [4]], trivial⟩]).1 = [some [], some [2, 3, 4]] :=
  ⟨by decide, by decide, (fifo_newest .int (by decide) (by decide) _).1.trans (by decide)⟩

end RtThread.Serial
