import RtThread.Spec.RingBuffer
import Mathlib.Data.List.DropRight
import Mathlib.Tactic.SplitIfs

/-!
# Ring buffers are bounded queues

`Holds rb q`: the bytes of `rb` from the read index on are the queue `q`, and the write index
lies behind them, in the other mirror if they run over the end of the buffer. Writing is
`Holds.push`, reading `Holds.pop`, and writing over the oldest bytes `Holds.overwrite`.

* `ringbuffer_fifo`: a buffer shows the results of a byte queue of its capacity.
* `ringbuffer_force`: an overwriting put keeps the newest bytes, unless the old content lies in
  one mirror and the new bytes reach it.
-/

namespace RtThread.Ringbuffer

open Cyclic Run

/-- An overwriting put of `n` bytes laps the reader: the old bytes lie in one mirror, and the new ones
reach them. -/
def Laps (rb : RingBuffer) (n : ℕ) : Prop :=
  rb.readMirror = rb.writeMirror ∧ rb.readIndex < rb.writeIndex ∧
    rb.bufferSize < rb.writeIndex - rb.readIndex + n

instance (rb : RingBuffer) (n : ℕ) : Decidable (Laps rb n) := inferInstanceAs (Decidable (_ ∧ _ ∧ _))

/-- A buffer of capacity `n` shows a queue: it has that content, and every further run of calls has the
results of that queue. -/
def Shows (n : ℕ) (rb : RingBuffer) (q : List Byte) : Prop :=
  content rb = q ∧ rtRingbufferDataLen rb = q.length ∧
    ∀ ops, (trace step rb ops).1 = (trace (Fifo.step n) q ops).1

/-- The buffer holds the queue. -/
structure Holds (rb : RingBuffer) (q : List Byte) : Prop where
  size_lt : rb.bufferSize < 2 ^ 15
  read_lt : rb.readIndex < rb.bufferSize
  write_lt : rb.writeIndex < rb.bufferSize
  length_le : q.length ≤ rb.bufferSize
  write_eq : rb.readIndex + q.length =
    if rb.readMirror = rb.writeMirror then rb.writeIndex else rb.bufferSize + rb.writeIndex
  content_eq : contents rb.bufferPtr rb.bufferSize rb.readIndex q.length = q

variable {rb : RingBuffer} {q d : List Byte} {n i : ℕ} {pool : ℕ → Byte}

theorem index_eq (h : n < 2 ^ 15) : index n = n := Nat.mod_eq_of_lt h

theorem uint16_eq (h : n < 2 ^ 15) : uint16 n = n := Nat.mod_eq_of_lt (by omega)

/-- An index that has moved by `k` places, into the other mirror if it ran over the end. -/
theorem mod_of_wrap {a w : ℕ} {P : Prop} [Decidable P] (hw : w < n) (h : a = if P then w else n + w) :
    a % n = w := by
  subst h
  split_ifs
  · exact Nat.mod_eq_of_lt hw
  · rw [Nat.add_mod_left, Nat.mod_eq_of_lt hw]

theorem memcpyIn_eq {size : ℕ} (h : i + n ≤ size) : memcpyIn pool i d n = write pool size i (d.take n) :=
  (write_eq_copy (by have := List.length_take_le n d; omega)).symm

/-- The two pieces of a write that reaches the end. -/
theorem memcpyIn_memcpyIn {size : ℕ} (hi : i ≤ size) (hn : n ≤ size) (hroom : size - i ≤ n) :
    memcpyIn (memcpyIn pool i d (size - i)) 0 (d.drop (size - i)) (n - (size - i)) =
      write pool size i (d.take n) := by
  rw [write_eq_copy_copy hi (by have := List.length_take_le n d; omega), List.take_take,
    Nat.min_eq_left hroom, List.drop_take]
  rfl

theorem memcpyOut_eq {size : ℕ} (h : i + n ≤ size) : memcpyOut pool i n = contents pool size i n := slice_eq h

/-- The two pieces of a read that reaches the end. -/
theorem memcpyOut_append {size : ℕ} (hi : i ≤ size) (hn : n ≤ size) (hroom : size - i ≤ n) :
    memcpyOut pool i (size - i) ++ memcpyOut pool 0 (n - (size - i)) = contents pool size i n :=
  slice_append hi hn hroom

theorem length_rtake : (d.rtake n).length = min d.length n := by
  rw [List.rtake, List.length_drop]
  omega

theorem rtake_of_length_le (h : d.length ≤ n) : d.rtake n = d := by
  rw [List.rtake, Nat.sub_eq_zero_of_le h, List.drop_zero]

/-- The last `n` bytes of two strings come from the last `n` of the second. -/
theorem rtake_append : (q ++ d).rtake n = (q ++ d.rtake n).rtake n := by
  by_cases hd : d.length ≤ n
  · rw [rtake_of_length_le hd]
  · have hlen : (d.rtake n).length = n := by rw [length_rtake]; omega
    rw [List.rtake, List.rtake, List.length_append, List.length_append, hlen,
      Nat.add_sub_cancel, List.drop_left' rfl, List.rtake, List.drop_append,
      List.drop_of_length_le (by omega), List.nil_append]
    congr 1
    omega

namespace Holds

variable (h : Holds rb q)
include h

theorem dataLen : rtRingbufferDataLen rb = q.length := by
  have hr := h.read_lt
  have hle := h.length_le
  have hw := h.write_eq
  by_cases hi : rb.readIndex = rb.writeIndex
  · by_cases hm : rb.readMirror = rb.writeMirror
    · simp only [rtRingbufferDataLen, rtRingbufferStatus, if_pos hi, if_pos hm] at hw ⊢
      omega
    · simp only [rtRingbufferDataLen, rtRingbufferStatus, if_pos hi, if_neg hm] at hw ⊢
      omega
  · simp only [rtRingbufferDataLen, rtRingbufferStatus, if_neg hi]
    split_ifs at hw ⊢ <;> omega

theorem spaceLen : rtRingbufferSpaceLen rb = rb.bufferSize - q.length := by
  rw [rtRingbufferSpaceLen, h.dataLen]

theorem content : content rb = q := by rw [Ringbuffer.content, h.dataLen, h.content_eq]

/-- The bytes lie in one mirror exactly when the indices say so. -/
theorem status_full : rtRingbufferStatus rb = .full ↔ q.length = rb.bufferSize := by
  have := h.read_lt
  have := h.write_lt
  have hw := h.write_eq
  unfold rtRingbufferStatus
  split_ifs at hw ⊢ <;> simp <;> omega

/-- In a full buffer the indices lie in different mirrors. -/
theorem mirror_ne (hfull : q.length = rb.bufferSize) : rb.readMirror ≠ rb.writeMirror := by
  have hw := h.write_lt
  have hold := h.write_eq
  intro hm
  rw [if_pos hm] at hold
  omega

/-- **Bytes go in behind the last one.** -/
theorem push (hd : q.length + d.length ≤ rb.bufferSize) {m : Bool} {w : ℕ} (hlt : w < rb.bufferSize)
    (hw : rb.writeIndex + d.length = if m = rb.writeMirror then w else rb.bufferSize + w) :
    Holds { rb with
      bufferPtr := write rb.bufferPtr rb.bufferSize rb.writeIndex d
      writeMirror := m
      writeIndex := w } (q ++ d) := by
  have hr := h.read_lt
  have hold := h.write_eq
  refine ⟨h.size_lt, hr, hlt, by simpa using hd, ?_, ?_⟩
  · rw [List.length_append]
    show _ = if rb.readMirror = m then w else rb.bufferSize + w
    cases hm : m <;> cases hrm : rb.readMirror <;> cases hwm : rb.writeMirror <;>
      simp only [hm, hrm, hwm, if_true, if_false, reduceCtorEq] at hw hold ⊢ <;> omega
  · rw [List.length_append]
    show contents (write _ _ _ d) _ _ _ = _
    rw [← mod_of_wrap h.write_lt hold, write_mod, contents_write hd, h.content_eq]

/-- **Bytes come out in front.** -/
theorem pop (hn : n ≤ q.length) {m : Bool} {r : ℕ} (hlt : r < rb.bufferSize)
    (hr : rb.readIndex + n = if m = rb.readMirror then r else rb.bufferSize + r) :
    Holds { rb with readMirror := m, readIndex := r } (q.drop n) := by
  have hold := h.write_eq
  have hw := h.write_lt
  have hle := h.length_le
  refine ⟨h.size_lt, hlt, h.write_lt, by rw [List.length_drop]; show _ ≤ rb.bufferSize; omega, ?_, ?_⟩
  · rw [List.length_drop]
    show _ = if m = rb.writeMirror then rb.writeIndex else rb.bufferSize + rb.writeIndex
    cases hm : m <;> cases hrm : rb.readMirror <;> cases hwm : rb.writeMirror <;>
      simp only [hm, hrm, hwm, if_true, if_false, reduceCtorEq] at hr hold ⊢ <;> omega
  · rw [List.length_drop]
    show contents rb.bufferPtr rb.bufferSize r _ = _
    have hsplit := h.content_eq
    rw [← Nat.add_sub_cancel' hn, contents_append] at hsplit
    conv_rhs => rw [← hsplit, List.drop_left' length_contents]
    rw [← mod_of_wrap hlt hr, contents_mod]

/-- The bytes that a read gets. -/
theorem front (hn : n ≤ q.length) : contents rb.bufferPtr rb.bufferSize rb.readIndex n = q.take n := by
  have hsplit := h.content_eq
  rw [← Nat.add_sub_cancel' hn, contents_append] at hsplit
  conv_rhs => rw [← hsplit, List.take_left' length_contents]

/-- **Bytes go over the oldest ones**, and fill the buffer. -/
theorem overwrite (hd : d.length ≤ rb.bufferSize) (hfull : rb.bufferSize ≤ q.length + d.length)
    {m k : Bool} {w : ℕ} (hlt : w < rb.bufferSize) (hk : k ≠ m)
    (hw : rb.writeIndex + d.length = if m = rb.writeMirror then w else rb.bufferSize + w) :
    Holds { rb with
      bufferPtr := write rb.bufferPtr rb.bufferSize rb.writeIndex d
      readMirror := k
      readIndex := w
      writeMirror := m
      writeIndex := w } ((q ++ d).rtake rb.bufferSize) := by
  have hold := h.write_eq
  have hle := h.length_le
  have hlen : ((q ++ d).rtake rb.bufferSize).length = rb.bufferSize := by
    rw [List.rtake_eq_reverse_take_reverse, List.length_reverse, List.length_take, List.length_reverse,
      List.length_append]
    omega
  refine ⟨h.size_lt, hlt, hlt, hlen.le, ?_, ?_⟩
  · rw [hlen, if_neg hk]
    exact Nat.add_comm _ _
  · rw [hlen]
    show contents (write _ _ _ d) _ w _ = _
    -- the bytes that the new ones replace
    obtain ⟨k, hk⟩ := Nat.exists_eq_add_of_le hfull
    have hover : contents (write rb.bufferPtr rb.bufferSize (rb.readIndex + q.length) d) rb.bufferSize
        (rb.readIndex + k) (q.length + d.length - k) =
          (contents rb.bufferPtr rb.bufferSize rb.readIndex q.length ++ d).drop k :=
      contents_overwrite (by omega) (by omega)
    rw [h.content_eq, hk, Nat.add_sub_cancel, ← write_mod, mod_of_wrap h.write_lt hold, ← contents_mod]
      at hover
    have hout : rb.readIndex + k =
        if rb.readMirror = rb.writeMirror ∨ m = rb.writeMirror then w else rb.bufferSize + w := by
      by_cases hm : rb.readMirror = rb.writeMirror <;> by_cases hn : m = rb.writeMirror <;>
        simp only [hm, hn, if_true, if_false, or_true, or_false] at hold hw ⊢ <;> omega
    rw [mod_of_wrap hlt hout] at hover
    rw [hover, List.rtake, List.length_append, hk, Nat.add_sub_cancel_left]

/-- `rt_ringbuffer_put` puts in what there is space for. -/
theorem put (d : List Byte) :
    (rtRingbufferPut rb d d.length).1 = min d.length (rb.bufferSize - q.length) ∧
      Holds (rtRingbufferPut rb d d.length).2 (q ++ d.take (rb.bufferSize - q.length)) := by
  have hn := h.size_lt
  have hw := h.write_lt
  have hle := h.length_le
  unfold rtRingbufferPut
  simp only [h.spaceLen]
  rw [uint16_eq (by omega)]
  by_cases h0 : rb.bufferSize - q.length = 0
  · rw [if_pos h0, h0, List.take_zero, List.append_nil, Nat.min_zero]
    exact ⟨rfl, h⟩
  have hmin : (if rb.bufferSize - q.length < d.length then rb.bufferSize - q.length else d.length) =
      min (rb.bufferSize - q.length) d.length := by split_ifs <;> omega
  rw [if_neg h0, hmin, List.take_eq_take_min, Nat.min_comm d.length]
  obtain ⟨k, hk⟩ : ∃ k, k = min (rb.bufferSize - q.length) d.length := ⟨_, rfl⟩
  have hlen : (d.take k).length = k := List.length_take_of_le (by omega)
  rw [← hk]
  by_cases hroom : rb.bufferSize - rb.writeIndex > k
  · rw [if_pos hroom, memcpyIn_eq (show rb.writeIndex + k ≤ rb.bufferSize by omega), index_eq (by omega)]
    refine ⟨rfl, h.push (by omega) (by omega) ?_⟩
    rw [hlen, if_pos rfl]
  · rw [if_neg hroom, memcpyIn_memcpyIn hw.le (by omega) (by omega), index_eq (by omega)]
    refine ⟨rfl, h.push (by omega) (by omega) ?_⟩
    rw [hlen, if_neg (Bool.not_ne_self _)]
    omega

/-- `rt_ringbuffer_get` takes out the oldest bytes. -/
theorem get (n : ℕ) :
    (rtRingbufferGet rb n).1 = min n q.length ∧ (rtRingbufferGet rb n).2.1 = q.take n ∧
      Holds (rtRingbufferGet rb n).2.2 (q.drop n) := by
  have hn := h.size_lt
  have hr := h.read_lt
  have hle := h.length_le
  unfold rtRingbufferGet
  simp only [h.dataLen]
  by_cases h0 : q.length = 0
  · rw [if_pos h0, h0, Nat.min_zero, List.length_eq_zero_iff.1 h0, List.take_nil, List.drop_nil]
    exact ⟨rfl, rfl, List.length_eq_zero_iff.1 h0 ▸ h⟩
  have hmin : (if q.length < n then uint16 q.length else n) = min n q.length := by
    rw [uint16_eq (by omega)]
    split_ifs <;> omega
  rw [if_neg h0, hmin, List.take_eq_take_min, List.drop_eq_drop_min]
  obtain ⟨k, hk⟩ : ∃ k, k = min n q.length := ⟨_, rfl⟩
  rw [← hk]
  by_cases hroom : rb.bufferSize - rb.readIndex > k
  · rw [if_pos hroom, memcpyOut_eq (show rb.readIndex + k ≤ rb.bufferSize by omega), h.front (by omega),
      index_eq (by omega)]
    refine ⟨rfl, rfl, h.pop (by omega) (by omega) ?_⟩
    rw [if_pos rfl]
  · rw [if_neg hroom, memcpyOut_append hr.le (by omega) (by omega), h.front (by omega),
      index_eq (by omega)]
    refine ⟨rfl, rfl, h.pop (by omega) (by omega) ?_⟩
    rw [if_neg (Bool.not_ne_self _)]
    omega

/-- One byte is a block of length 1. -/
theorem update_eq (ch : Byte) :
    Function.update rb.bufferPtr rb.writeIndex ch = write rb.bufferPtr rb.bufferSize rb.writeIndex [ch] := by
  rw [write, write, Nat.mod_eq_of_lt h.write_lt]

/-- `rt_ringbuffer_putchar` puts in a byte if there is space. -/
theorem putchar (ch : Byte) :
    (rtRingbufferPutchar rb ch).1 = (if q.length < rb.bufferSize then 1 else 0) ∧
      Holds (rtRingbufferPutchar rb ch).2 (if q.length < rb.bufferSize then q ++ [ch] else q) := by
  have hn := h.size_lt
  have hw := h.write_lt
  unfold rtRingbufferPutchar
  rw [h.spaceLen]
  by_cases h0 : q.length < rb.bufferSize
  · rw [if_neg (Nat.sub_ne_zero_of_lt h0), if_pos h0, if_pos h0, h.update_eq]
    by_cases hend : rb.writeIndex = rb.bufferSize - 1
    · rw [if_pos hend]
      refine ⟨rfl, h.push (d := [ch]) h0 (by omega) ?_⟩
      rw [if_neg (Bool.not_ne_self _), List.length_singleton]
      omega
    · rw [if_neg hend, index_eq (by omega)]
      refine ⟨rfl, h.push (d := [ch]) h0 (by omega) ?_⟩
      rw [if_pos rfl, List.length_singleton]
  · rw [if_pos (Nat.sub_eq_zero_of_le (by omega)), if_neg h0, if_neg h0]
    exact ⟨rfl, h⟩

/-- `rt_ringbuffer_getchar` takes out the oldest byte. -/
theorem getchar :
    (rtRingbufferGetchar rb).1 = min 1 q.length ∧ (rtRingbufferGetchar rb).2.1 = q.take 1 ∧
      Holds (rtRingbufferGetchar rb).2.2 (q.drop 1) := by
  have hn := h.size_lt
  have hr := h.read_lt
  have hle := h.length_le
  unfold rtRingbufferGetchar
  rw [h.dataLen]
  by_cases h0 : q.length = 0
  · obtain rfl := List.length_eq_zero_iff.1 h0
    rw [if_pos h0]
    exact ⟨rfl, rfl, h⟩
  have hfront : [rb.bufferPtr rb.readIndex] = q.take 1 := by
    rw [← h.front (by omega), contents_cons, contents_zero, Nat.mod_eq_of_lt hr]
  rw [if_neg h0, Nat.min_eq_left (by omega), ← hfront]
  by_cases hend : rb.readIndex = rb.bufferSize - 1
  · rw [if_pos hend]
    refine ⟨rfl, rfl, h.pop (by omega) (by omega) ?_⟩
    rw [if_neg (Bool.not_ne_self _)]
    omega
  · rw [if_neg hend, index_eq (by omega)]
    refine ⟨rfl, rfl, h.pop (by omega) (by omega) ?_⟩
    rw [if_pos rfl]

/-- An empty buffer with its indices at 0. -/
theorem reset : Holds (rtRingbufferReset rb) [] := by
  have hr := h.read_lt
  exact ⟨h.size_lt, by show 0 < rb.bufferSize; omega, by show 0 < rb.bufferSize; omega, Nat.zero_le _, rfl, rfl⟩

/-- An overwriting put keeps the newest bytes, unless it laps the reader; then it leaves the buffer
empty. -/
theorem putForce (d : List Byte) :
    (¬ Laps rb d.length → Holds (rtRingbufferPutForce rb d d.length).2 ((q ++ d).rtake rb.bufferSize)) ∧
      (Laps rb d.length → Holds (rtRingbufferPutForce rb d d.length).2 []) := by
  have hn := h.size_lt
  have hr := h.read_lt
  have hw := h.write_lt
  have hle := h.length_le
  have heq := h.write_eq
  have hcut : (if d.length > rb.bufferSize then
      (d.drop (d.length - rb.bufferSize), uint16 rb.bufferSize) else (d, d.length)) =
      (d.rtake rb.bufferSize, (d.rtake rb.bufferSize).length) := by
    rw [uint16_eq hn, List.rtake]
    split_ifs with hgt
    · rw [List.length_drop, Nat.sub_sub_self hgt.le]
    · rw [Nat.sub_eq_zero_of_le (by omega), List.drop_zero]
  rw [rtake_append]
  unfold rtRingbufferPutForce
  simp only [h.spaceLen, hcut]
  rw [uint16_eq (by omega)]
  have hlaps : Laps rb d.length ↔ rb.readMirror = rb.writeMirror ∧
      rb.bufferSize - q.length < (d.rtake rb.bufferSize).length := by
    rw [length_rtake, Laps]
    refine and_congr_right fun hm => ?_
    rw [if_pos hm] at heq
    omega
  have hlen : (d.rtake rb.bufferSize).length ≤ rb.bufferSize := by rw [length_rtake]; omega
  rw [hlaps]
  generalize d.rtake rb.bufferSize = e at *
  by_cases hroom : rb.bufferSize - rb.writeIndex > e.length
  · rw [if_pos hroom, memcpyIn_eq (show rb.writeIndex + e.length ≤ rb.bufferSize by omega),
      index_eq (by omega), List.take_length]
    by_cases hgt : e.length > rb.bufferSize - q.length
    · -- the write reaches the reader, which is a mirror behind
      have hm : rb.readMirror ≠ rb.writeMirror := by
        intro hm
        rw [if_pos hm] at heq
        omega
      rw [if_pos hgt]
      exact ⟨fun _ => h.overwrite hlen (by omega) (by omega) hm (by rw [if_pos rfl]),
        fun hl => absurd hl.1 hm⟩
    · rw [if_neg hgt, rtake_of_length_le (by rw [List.length_append]; omega)]
      exact ⟨fun _ => h.push (by omega) (by omega) (by rw [if_pos rfl]), fun hl => absurd hl.2 hgt⟩
  · have hflip : rb.writeIndex + e.length = if (!rb.writeMirror) = rb.writeMirror then
        e.length - (rb.bufferSize - rb.writeIndex) else
          rb.bufferSize + (e.length - (rb.bufferSize - rb.writeIndex)) := by
      rw [if_neg (Bool.not_ne_self _)]
      omega
    rw [if_neg hroom, memcpyIn_memcpyIn hw.le (by omega) (by omega), index_eq (by omega), List.take_length]
    by_cases hgt : e.length > rb.bufferSize - q.length
    · rw [if_pos hgt, if_pos hgt]
      constructor
      · intro hl
        have hm : (!rb.readMirror) ≠ !rb.writeMirror := fun hm => hl ⟨Bool.not_inj hm, hgt⟩
        exact h.overwrite hlen (by omega) (by omega) hm hflip
      · intro hl
        -- both mirrors flip, so the indices meet in one mirror
        have hidx : e.length - (rb.bufferSize - rb.writeIndex) < rb.bufferSize := by omega
        exact ⟨hn, hidx, hidx, Nat.zero_le _, (if_pos (congrArg not hl.1)).symm, rfl⟩
    · rw [if_neg hgt, if_neg hgt, rtake_of_length_le (by rw [List.length_append]; omega)]
      exact ⟨fun _ => h.push (by omega) (by omega) hflip, fun hl => absurd hl.2 hgt⟩

/-- `rt_ringbuffer_putchar_force` keeps the newest bytes. -/
theorem putcharForce (ch : Byte) :
    Holds (rtRingbufferPutcharForce rb ch).2 ((q ++ [ch]).rtake rb.bufferSize) := by
  have hn := h.size_lt
  have hw := h.write_lt
  have hle := h.length_le
  have hone : [ch].length = 1 := rfl
  have hflip : rb.writeIndex = rb.bufferSize - 1 → rb.writeIndex + [ch].length =
      if (!rb.writeMirror) = rb.writeMirror then 0 else rb.bufferSize + 0 := by
    intro hend
    rw [if_neg (Bool.not_ne_self _)]
    omega
  unfold rtRingbufferPutcharForce
  simp only [h.update_eq]
  by_cases hfull : q.length = rb.bufferSize
  · have hm : rb.readMirror ≠ rb.writeMirror := h.mirror_ne hfull
    simp only [if_pos (h.status_full.2 hfull)]
    by_cases hend : rb.writeIndex = rb.bufferSize - 1
    · rw [if_pos hend]
      exact h.overwrite (by omega) (by omega) (by omega) (by simpa using hm) (hflip hend)
    · rw [if_neg hend, index_eq (by omega)]
      exact h.overwrite (by omega) (by omega) (by omega) hm (by rw [if_pos rfl]; rfl)
  · simp only [if_neg (fun hs => hfull (h.status_full.1 hs))]
    rw [rtake_of_length_le (by rw [List.length_append, List.length_singleton]; omega)]
    by_cases hend : rb.writeIndex = rb.bufferSize - 1
    · rw [if_pos hend]
      exact h.push (by omega) (by omega) (hflip hend)
    · rw [if_neg hend, index_eq (by omega)]
      exact h.push (by omega) (by omega) (by rw [if_pos rfl]; rfl)

/-- **A call does what it does to the queue.** -/
theorem call (o : Op) :
    (step rb o).1 = (Fifo.step rb.bufferSize q o).1 ∧
      Holds (step rb o).2 (Fifo.step rb.bufferSize q o).2 := by
  cases o with
  | put d => exact ⟨by rw [step, (h.put d.1).1]; rfl, (h.put d.1).2⟩
  | putchar ch =>
    obtain ⟨hret, hq⟩ := h.putchar ch
    simp only [step, Fifo.step, hret]
    split_ifs at hq ⊢ <;> exact ⟨rfl, hq⟩
  | get length =>
    obtain ⟨hret, hout, hq⟩ := h.get length.toNat
    exact ⟨by simp only [step, Fifo.step, hret, hout], hq⟩
  | getchar =>
    obtain ⟨hret, hout, hq⟩ := h.getchar
    exact ⟨by simp only [step, Fifo.step, hret, hout], hq⟩
  | dataLen => exact ⟨by simp only [step, Fifo.step, h.dataLen], h⟩
  | reset => exact ⟨rfl, h.reset⟩

end Holds

/-- No call changes the size of the buffer. -/
theorem after_bufferSize (a : Call) : (after rb a).bufferSize = rb.bufferSize := by
  cases a with
  | op o =>
    cases o with
    | put d =>
      simp only [after, step, rtRingbufferPut]
      split_ifs <;> rfl
    | putchar ch =>
      simp only [after, step, rtRingbufferPutchar]
      split_ifs <;> rfl
    | get length =>
      simp only [after, step, rtRingbufferGet]
      split_ifs <;> rfl
    | getchar =>
      simp only [after, step, rtRingbufferGetchar]
      split_ifs <;> rfl
    | dataLen => rfl
    | reset => rfl
  | putForce d =>
    simp only [after, rtRingbufferPutForce]
    split_ifs <;> rfl
  | putcharForce ch =>
    simp only [after, rtRingbufferPutcharForce]
    split_ifs <;> rfl

/-- **Runs of calls** on a buffer are runs on the queue it holds. -/
theorem Holds.calls (h : Holds rb q) (ops : List Op) :
    (trace step rb ops).1 = (trace (Fifo.step rb.bufferSize) q ops).1 ∧
      (trace step rb ops).2.bufferSize = rb.bufferSize ∧
        Holds (trace step rb ops).2 (trace (Fifo.step rb.bufferSize) q ops).2 := by
  refine trace_sim (R := fun s t => s.bufferSize = rb.bufferSize ∧ Holds s t) (fun s t o hst => ?_) ⟨rfl, h⟩ ops
  obtain ⟨hsize, hs⟩ := hst
  have hstep := hs.call o
  rw [hsize] at hstep
  exact ⟨hstep.1, (after_bufferSize (.op o)).trans hsize, hstep.2⟩

theorem Holds.shows (h : Holds rb q) : Shows rb.bufferSize rb q :=
  ⟨h.content, h.dataLen, fun ops => (h.calls ops).1⟩

/-- A new buffer is empty. -/
theorem created_holds (h : Created rb) (hpos : 0 < rb.bufferSize) : Holds rb [] := by
  obtain ⟨alignLog, pool, size, hlog, hsize, hinit⟩ := h
  unfold rtRingbufferInit at hinit
  split_ifs at hinit
  cases hinit
  have hle : Word.alignDown 32 alignLog size ≤ size := Word.alignDown_le (by omega)
  exact ⟨lt_of_le_of_lt hle hsize, hpos, hpos, Nat.zero_le _, rfl, rfl⟩

/-- **Every buffer holds a queue.** -/
theorem reachable_holds (h : Reachable rb) (hpos : 0 < rb.bufferSize) : ∃ q, Holds rb q := by
  induction h with
  | init hc => exact ⟨[], created_holds hc hpos⟩
  | @step rb _ a _ _ hst ih =>
    subst hst
    rw [after_bufferSize] at hpos
    obtain ⟨q, hq⟩ := ih hpos
    cases a with
    | op o => exact ⟨_, (hq.call o).2⟩
    | putForce d =>
      by_cases hl : Laps rb d.1.length
      · exact ⟨_, (hq.putForce d.1).2 hl⟩
      · exact ⟨_, (hq.putForce d.1).1 hl⟩
    | putcharForce ch => exact ⟨_, hq.putcharForce ch⟩

/-- **A ring buffer is a bounded queue**: the results of every sequence of calls are those of a byte
queue of its capacity, which it holds; the indices stay inside the buffer. -/
theorem ringbuffer_fifo {alignLog size : ℕ} (hlog : alignLog < 31) (hsize : size < 2 ^ 15)
    (halign : 2 ^ alignLog ∣ size) (hinit : rtRingbufferInit alignLog pool size = some rb) (ops : List Op) :
    (trace step rb ops).1 = (trace (Fifo.step size) [] ops).1 ∧
      content (trace step rb ops).2 = (trace (Fifo.step size) [] ops).2 ∧
        (trace step rb ops).2.readIndex < size ∧ (trace step rb ops).2.writeIndex < size := by
  have hrb : rb.bufferSize = size ∧ 0 < size := by
    unfold rtRingbufferInit at hinit
    split_ifs at hinit with hpos
    cases hinit
    refine ⟨?_, hpos⟩
    show Word.alignDown 32 alignLog size = size
    rw [Word.alignDown_eq (by omega), Nat.mod_eq_of_lt (by omega), Nat.div_mul_cancel halign]
  have h0 : Holds rb [] := created_holds ⟨alignLog, pool, size, hlog, hsize, hinit⟩ (by omega)
  obtain ⟨hout, hkeep, h⟩ := h0.calls ops
  rw [hrb.1] at hout hkeep h
  refine ⟨hout, h.content, ?_, ?_⟩
  · exact hkeep ▸ h.read_lt
  · exact hkeep ▸ h.write_lt

/-- Eight bytes, of which five go in and two come out. -/
theorem ringbuffer_fifo_eight :
    ∃ rb, rtRingbufferInit 2 (fun _ => 0) 8 = some rb ∧
      (trace step rb [.put ⟨[1, 2, 3, 4, 5], by decide⟩, .get 2]).1 =
        [{ ret := 5, out := [] }, { ret := 2, out := [1, 2] }] ∧
      (trace step rb [.put ⟨[1, 2, 3, 4, 5], by decide⟩, .get 2]).1 =
        (trace (Fifo.step 8) [] [.put ⟨[1, 2, 3, 4, 5], by decide⟩, .get 2]).1 := by
  refine ⟨_, rfl, by decide, ?_⟩
  exact (ringbuffer_fifo (by decide) (by decide) (by decide : 2 ^ 2 ∣ 8) rfl _).1

/-- The buffer of eight bytes that holds `[1, 2, 3, 4]`. -/
def four : RingBuffer :=
  { bufferPtr := Cyclic.copy (fun _ => 0) 0 [1, 2, 3, 4]
    readMirror := false
    readIndex := 0
    writeMirror := false
    writeIndex := 4
    bufferSize := 8 }

theorem reachable_four : Reachable four :=
  .step (a := .op (.put ⟨[1, 2, 3, 4], by decide⟩)) (.init ⟨2, fun _ => 0, 8, by decide, by decide, rfl⟩) trivial
    (by rfl)

/-- **Overwriting puts keep the newest bytes**, for a block exactly if it does not lap the reader. -/
theorem ringbuffer_force (hr : Reachable rb) (hpos : 0 < rb.bufferSize) :
    (∀ d : Block, Shows rb.bufferSize (after rb (.putForce d)) ((content rb ++ d.1).rtake rb.bufferSize) ↔
      ¬ Laps rb d.1.length) ∧
    ∀ ch, Shows rb.bufferSize (after rb (.putcharForce ch)) ((content rb ++ [ch]).rtake rb.bufferSize) := by
  obtain ⟨q, h⟩ := reachable_holds hr hpos
  rw [h.content]
  constructor
  · intro d
    constructor
    · intro hs hl
      -- the buffer is empty, the newest bytes are not
      have hempty := ((h.putForce d.1).2 hl).dataLen
      have hkeep : 0 = ((q ++ d.1).rtake rb.bufferSize).length := hempty.symm.trans hs.2.1
      rw [length_rtake, List.length_append] at hkeep
      have := hl.2.2
      have := h.write_lt
      omega
    · intro hl
      exact after_bufferSize (.putForce d) ▸ ((h.putForce d.1).1 hl).shows
  · intro ch
    exact after_bufferSize (.putcharForce ch) ▸ (h.putcharForce ch).shows

/-- Four bytes fill the buffer of eight that holds four. -/
theorem ringbuffer_force_four :
    Shows 8 (after four (.putcharForce 5)) [1, 2, 3, 4, 5] ∧ ¬ Laps four 4 ∧
      Shows 8 (after four (.putForce ⟨[5, 6, 7, 8], by decide⟩)) [1, 2, 3, 4, 5, 6, 7, 8] :=
  have h := ringbuffer_force reachable_four (by decide)
  ⟨h.2 5, by decide, (h.1 ⟨[5, 6, 7, 8], by decide⟩).2 (by decide)⟩

/-- Six bytes that lap the reader leave nothing: the six newest bytes and the two before them are gone. -/
theorem ringbuffer_force_laps :
    Reachable four ∧ content four = [1, 2, 3, 4] ∧
      content (after four (.putForce ⟨[5, 6, 7, 8, 9, 10], by decide⟩)) = [] ∧
      ¬ Shows 8 (after four (.putForce ⟨[5, 6, 7, 8, 9, 10], by decide⟩))
        ((content four ++ [5, 6, 7, 8, 9, 10]).rtake 8) :=
  ⟨reachable_four, by decide, by decide, fun h => absurd h.2.1 (by decide)⟩

end RtThread.Ringbuffer
