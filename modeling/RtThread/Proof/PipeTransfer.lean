import RtThread.Spec.PipeTransfer
import RtThread.Proof.PipeWake

/-!
# Transfers of a pipe

A loop transfers at most two chunks: what is left of the count modulo 2¹⁶ is the length of the first, and behind it is
either no room or a multiple of 2¹⁶ bytes, whose length is 0.

* `write_eq`, `read_eq`: what `rt_pipe_write` and `rt_pipe_read` transfer.
* `transfers_iff`: **when a transfer is not truncated**.
-/

namespace RtThread.Pipe

open Ringbuffer

/-! ## The device -/

section

variable {rb rb' : RingBuffer} {q buf : List Byte} {n count : ℕ}

/-- The length that the ring buffer is given. -/
theorem length_chunk (buf : List Byte) (n : ℕ) : (State.chunk buf n).length = uint16 (buf.length - n) := by
  rw [State.chunk, List.length_take, List.length_drop]
  exact Nat.min_eq_left (Nat.mod_le _ _)

theorem take_chunk (buf : List Byte) (n k : ℕ) (hk : k ≤ uint16 (buf.length - n)) :
    (State.chunk buf n).take k = (buf.drop n).take k := by
  rw [State.chunk, List.take_take, Nat.min_eq_left hk]

theorem put_pair (h : Holds rb q) (d : List Byte) :
    ∃ rb', rtRingbufferPut rb d d.length = (min d.length (rb.bufferSize - q.length), rb') ∧
      rb'.bufferSize = rb.bufferSize ∧ Holds rb' (q ++ d.take (min d.length (rb.bufferSize - q.length))) := by
  obtain ⟨hlen, hput⟩ := h.put d
  refine ⟨_, Prod.ext hlen rfl, put_bufferSize rb d, ?_⟩
  rwa [List.take_eq_take_min, Nat.min_comm] at hput

/-- A round that transfers nothing is the last one. -/
theorem writeLoop_stop (h : Holds rb q) (hn : n = buf.length ∨ uint16 (buf.length - n) = 0 ∨ rb.bufferSize ≤ q.length) :
    ∃ rb', rtPipeWriteLoop rb buf n = (n, rb') ∧ Holds rb' q := by
  rw [rtPipeWriteLoop]
  split
  · rename_i hmore
    obtain ⟨rb', hpair, -, hput⟩ := put_pair h (State.chunk buf n)
    have hnone : min (State.chunk buf n).length (rb.bufferSize - q.length) = 0 := by
      rw [length_chunk]
      omega
    rw [hnone] at hpair hput
    rw [hpair]
    exact ⟨rb', rfl, by simpa using hput⟩
  · exact ⟨rb, rfl, h⟩

/-- **What `rt_pipe_write` stores**: what there is room for, of the count modulo 2¹⁶. -/
theorem write_eq (h : Holds rb q) (buf : List Byte) :
    ∃ rb', rtPipeWrite rb buf = (min (uint16 buf.length) (rb.bufferSize - q.length), rb') ∧
      Holds rb' (q ++ buf.take (min (uint16 buf.length) (rb.bufferSize - q.length))) := by
  unfold rtPipeWrite
  split
  · rename_i hzero
    rw [hzero]
    exact ⟨rb, by simp [uint16], by simpa [uint16] using h⟩
  · rename_i hne
    obtain ⟨rb', hpair, hsize, hput⟩ := put_pair h (State.chunk buf 0)
    have hchunk : (State.chunk buf 0).length = uint16 buf.length := length_chunk buf 0
    have htake : (State.chunk buf 0).take (min (uint16 buf.length) (rb.bufferSize - q.length)) =
        buf.take (min (uint16 buf.length) (rb.bufferSize - q.length)) := take_chunk buf 0 _ (Nat.min_le_left _ _)
    rw [hchunk] at hpair hput
    rw [htake] at hput
    have hmod : uint16 buf.length ≤ buf.length := Nat.mod_le _ _
    have hle := h.length_le
    rw [rtPipeWriteLoop, if_pos (Nat.pos_of_ne_zero hne), hchunk, hpair]
    simp only
    obtain ⟨k, hk⟩ : ∃ k, k = min (uint16 buf.length) (rb.bufferSize - q.length) := ⟨_, rfl⟩
    rw [← hk] at hput ⊢
    split
    · -- behind the first chunk there is no room, or a multiple of 2¹⁶ bytes
      have hlen : (q ++ buf.take k).length = q.length + k := by
        rw [List.length_append, List.length_take_of_le (by omega)]
      have hstop : 0 + k = buf.length ∨ uint16 (buf.length - (0 + k)) = 0 ∨ rb'.bufferSize ≤ (q ++ buf.take k).length := by
        unfold uint16 at hk hmod ⊢
        omega
      obtain ⟨rb'', hloop, hholds⟩ := writeLoop_stop hput hstop
      rw [Nat.zero_add] at hloop
      exact ⟨rb'', by rw [Nat.zero_add, hloop], hholds⟩
    · exact ⟨rb', by rw [show k = 0 by omega], hput⟩

theorem get_pair (h : Holds rb q) (n : ℕ) :
    ∃ rb', rtRingbufferGet rb n = (min n q.length, q.take (min n q.length), rb') ∧ Holds rb' (q.drop (min n q.length)) := by
  obtain ⟨hlen, hbytes, hget⟩ := h.get n
  rw [List.drop_eq_drop_min] at hget
  rw [List.take_eq_take_min] at hbytes
  exact ⟨_, Prod.ext hlen (Prod.ext hbytes rfl), hget⟩

theorem readLoop_stop (h : Holds rb q) (bytes : List Byte) (hn : n = count ∨ uint16 (count - n) = 0 ∨ q = []) :
    ∃ rb', rtPipeReadLoop rb count n bytes = (n, bytes, rb') ∧ Holds rb' q := by
  rw [rtPipeReadLoop]
  split
  · rename_i hmore
    obtain ⟨rb', hpair, hget⟩ := get_pair h (uint16 (count - n))
    have hnone : min (uint16 (count - n)) q.length = 0 := by
      obtain rfl | hzero | rfl := hn
      · omega
      · rw [hzero, Nat.zero_min]
      · exact Nat.min_zero _
    rw [hnone] at hpair hget
    rw [hpair]
    exact ⟨rb', rfl, by simpa using hget⟩
  · exact ⟨rb, rfl, h⟩

/-- **What `rt_pipe_read` returns**: what is there, of the count modulo 2¹⁶. -/
theorem read_eq (h : Holds rb q) (count : ℕ) :
    ∃ rb', rtPipeRead rb count = (min (uint16 count) q.length, q.take (min (uint16 count) q.length), rb') ∧
      Holds rb' (q.drop (min (uint16 count) q.length)) := by
  unfold rtPipeRead
  split
  · rename_i hzero
    rw [hzero]
    exact ⟨rb, by simp [uint16], by simpa [uint16] using h⟩
  · rename_i hne
    obtain ⟨rb', hpair, hget⟩ := get_pair h (uint16 (count - 0))
    rw [Nat.sub_zero] at hpair hget
    have hmod : uint16 count ≤ count := Nat.mod_le _ _
    rw [rtPipeReadLoop, if_pos (Nat.pos_of_ne_zero hne), Nat.sub_zero, hpair]
    simp only
    obtain ⟨k, hk⟩ : ∃ k, k = min (uint16 count) q.length := ⟨_, rfl⟩
    rw [← hk] at hget ⊢
    split
    · have hstop : 0 + k = count ∨ uint16 (count - (0 + k)) = 0 ∨ q.drop k = [] := by
        rw [List.drop_eq_nil_iff]
        unfold uint16 at hk hmod ⊢
        omega
      obtain ⟨rb'', hloop, hholds⟩ := readLoop_stop hget (q.take k) hstop
      rw [Nat.zero_add] at hloop
      exact ⟨rb'', by rw [Nat.zero_add, List.nil_append, hloop], hholds⟩
    · have hzero : k = 0 := by omega
      exact ⟨rb', by rw [hzero]; rfl, hget⟩

theorem min_uint16 {n room : ℕ} : min (uint16 n) room = min n room ↔ n < 2 ^ 16 ∨ room ≤ n % 2 ^ 16 := by
  unfold uint16
  omega

theorem stores_iff (h : Holds rb q) (buf : List Byte) :
    Stores rb buf ↔ buf.length < 2 ^ 16 ∨ rtRingbufferSpaceLen rb ≤ buf.length % 2 ^ 16 := by
  obtain ⟨rb', hwrite, hholds⟩ := write_eq h buf
  unfold Stores
  rw [hwrite, h.spaceLen, h.content, hholds.content, ← min_uint16]
  exact ⟨And.left, fun heq => ⟨heq, by rw [heq]⟩⟩

theorem returns_iff (h : Holds rb q) (count : ℕ) :
    Returns rb count ↔ count < 2 ^ 16 ∨ (content rb).length ≤ count % 2 ^ 16 := by
  obtain ⟨rb', hread, hholds⟩ := read_eq h count
  unfold Returns
  rw [hread, h.content, hholds.content, ← min_uint16]
  exact ⟨And.left, fun heq => ⟨heq, by rw [heq], by rw [heq]⟩⟩

end

/-! ## A write that blocks -/

variable {T : Type} [DecidableEq T] {cfg : Config} {s s' : State T} {t u : T} {fd : File} {buf : List Byte} {ret : ℕ}

/-- A wake-up leaves each write where it is. -/
theorem wake_writing (s : State T) (side : Side) (u : T) : ((s.wake side).call u).writing = (s.call u).writing := by
  cases side with
  | readers =>
    show (s.wakeReaders.call u).writing = _
    unfold State.wakeReaders
    split
    · rfl
    · rename_i w l _
      split
      · rename_i hc
        by_cases huw : u = w
        · rw [huw, setCall_self, hc]
          rfl
        · rw [setCall_of_ne huw]
      · rfl
  | writers =>
    show (s.wakeWriters.call u).writing = _
    unfold State.wakeWriters
    split
    · rfl
    · rename_i w l _
      split
      · rename_i hc
        by_cases huw : u = w
        · rw [huw, setCall_self, hc]
          rfl
        · rw [setCall_of_ne huw]
      · rfl

/-- The step of another thread leaves the write where it is. -/
theorem cont_other (hs : s.cont cfg u = some s') (hne : t ≠ u) : (s'.call t).writing = (s.call t).writing := by
  have hset : ∀ (s₁ : State T) (p : Call), (s₁.call t).writing = (s.call t).writing →
      ((s₁.setCall u p).call t).writing = (s.call t).writing := by
    intro s₁ p h
    rw [setCall_of_ne hne, h]
  simp only [State.cont] at hs
  cases hc : s.call u with
  | idle | readSuspended | writeSuspended => simp [hc] at hs
  | openLock fd =>
    simp only [hc] at hs
    split at hs
    swap
    · cases hs
    obtain ⟨s₁, hopen, rfl⟩ := Option.map_eq_some_iff.1 hs
    obtain ⟨fifo, -, rfl⟩ := Option.map_eq_some_iff.1 hopen
    exact hset _ _ rfl
  | closeLock | readLock | writeLock =>
    simp only [hc] at hs
    split at hs
    · cases hs
      exact hset _ _ rfl
    · cases hs
  | closeReaders =>
    simp only [hc] at hs
    cases hs
    split
    · exact hset _ _ (wake_writing s .readers t)
    · exact hset _ _ rfl
  | closeWriters =>
    simp only [hc] at hs
    cases hs
    split
    · exact hset _ _ (wake_writing s .writers t)
    · exact hset _ _ rfl
  | closeEnd =>
    simp only [hc] at hs
    split at hs
    · obtain ⟨rb, -, rfl⟩ := Option.map_eq_some_iff.1 hs
      exact hset _ _ rfl
    · cases hs
      exact hset _ _ rfl
  | readLoop fd count retry =>
    simp only [hc] at hs
    cases readLoop_cases hs with
    | eof _ hs' =>
      subst hs'
      exact hset _ _ rfl
    | get rb _ _ _ hs' =>
      subst hs'
      exact hset _ _ rfl
    | none rb p _ _ _ hs' _ =>
      subst hs'
      exact hset _ _ rfl
  | writeLoop fd buf ret wakeup =>
    simp only [hc] at hs
    cases writeLoop_cases hs with
    | epipe n _ hs' =>
      subst hs'
      exact hset _ _ rfl
    | put rb p _ _ hs' _ =>
      subst hs'
      exact hset _ _ rfl
  | readEntry | readRelease | readResumed | readOut | writeEntry | writeRelease | writeResumed | writeEnd =>
    simp only [hc] at hs
    cases hs
    exact hset _ _ rfl
  | readWait | writeWait =>
    simp only [hc] at hs
    split at hs
    · cases hs
      exact hset _ _ rfl
    · cases hs
      exact hset _ _ rfl
  | readWakeWriter | readWake =>
    simp only [hc] at hs
    cases hs
    exact hset _ _ (wake_writing s .writers t)
  | writeWakeReader | writeEndWake =>
    simp only [hc] at hs
    cases hs
    exact hset _ _ (wake_writing s .readers t)

/-- The steps of the thread leave its write where it is, but for its transfers. -/
theorem cont_self (hs : s.cont cfg t = some s') (hw : (s.call t).writing = some (fd, buf, ret))
    (hloop : ∀ wakeup, s.call t ≠ .writeLoop fd buf ret wakeup) : (s'.call t).writing = some (fd, buf, ret) := by
  simp only [State.cont] at hs
  cases hc : s.call t with
  | writeLoop fd' buf' ret' wakeup =>
    rw [hc] at hw
    cases hw
    exact absurd hc (hloop wakeup)
  | writeLock fd' buf' ret' wakeup =>
    rw [hc] at hw
    cases hw
    simp only [hc] at hs
    split at hs
    · cases hs
      rw [setCall_self]
      rfl
    · cases hs
  | writeWait fd' buf' ret' =>
    rw [hc] at hw
    cases hw
    simp only [hc] at hs
    split at hs
    · cases hs
      rw [setCall_self]
      rfl
    · cases hs
      rw [setCall_self]
      rfl
  | writeRelease fd' buf' ret' | writeWakeReader fd' buf' ret' | writeResumed fd' buf' ret' =>
    rw [hc] at hw
    cases hw
    simp only [hc] at hs
    cases hs
    rw [setCall_self]
    rfl
  | writeSuspended fd' buf' ret' => simp [hc] at hs
  | idle | openLock | closeLock | closeReaders | closeWriters | closeEnd | readEntry | readLock | readLoop | readRelease
  | readWakeWriter | readWait | readSuspended | readResumed | readWake | readOut | writeEntry | writeEnd
  | writeEndWake =>
    rw [hc] at hw
    cases hw

/-- **Every step leaves a write where it is**, but for its transfers. -/
theorem step_writing {a : Act T} (hs : s.step cfg a = some s') (hw : (s.call t).writing = some (fd, buf, ret))
    (htransfer : ¬(a = .cont t ∧ ∃ wakeup, s.call t = .writeLoop fd buf ret wakeup)) :
    (s'.call t).writing = some (fd, buf, ret) := by
  have hbegin : ∀ {u p}, s.begin u p = some s' → (s'.call t).writing = some (fd, buf, ret) := by
    intro u p h
    unfold State.begin at h
    split at h
    swap
    · cases h
    rename_i hidle
    cases h
    have hne : t ≠ u := by
      rintro rfl
      rw [hidle] at hw
      cases hw
    rw [setCall_of_ne hne, hw]
  cases a with
  | «open» u fd => exact hbegin hs
  | close u fd | read u fd count | write u fd buf =>
    simp only [State.step] at hs
    split at hs
    · exact hbegin hs
    · cases hs
  | cont u =>
    by_cases hne : t = u
    · subst hne
      exact cont_self hs hw fun wakeup hc => htransfer ⟨rfl, wakeup, hc⟩
    · rw [cont_other hs hne, hw]

/-- **A transfer of a write that blocks.** -/
theorem transfer_cases {wakeup : Bool} (hfifo : ∀ rb, s.fifo = some rb → ∃ q, Holds rb q) (hreaders : s.readers ≠ 0#8)
    (hblock : fd.nonblock = false) (hs : s.writeLoop t fd buf ret wakeup = some s') :
    let len := min (uint16 (buf.length - ret)) s.room
    (ret + len = buf.length → s'.call t = .writeEnd buf.length true) ∧
      (ret + len ≠ buf.length → (s'.call t).writing = some (fd, buf, ret + len)) := by
  intro len
  simp only [State.writeLoop, if_neg hreaders] at hs
  obtain ⟨rb, hrb, hs⟩ := Option.map_eq_some_iff.1 hs
  obtain ⟨q, hq⟩ := hfifo rb hrb
  obtain ⟨rb', hpair, -, -⟩ := put_pair hq (State.chunk buf ret)
  have hlen : min (State.chunk buf ret).length (rb.bufferSize - q.length) = len := by
    rw [length_chunk, ← room_eq hrb hq]
  rw [hlen] at hpair
  rw [hpair] at hs
  simp only [hblock] at hs
  constructor
  · intro hall
    rw [if_pos hall] at hs
    subst hs
    rw [setCall_self, hall]
  · intro hsome
    rw [if_neg hsome, if_neg (by decide)] at hs
    subst hs
    rw [setCall_self]
    rfl

section

variable {states : ℕ → State T} {act : ℕ → Option (Act T)} {i : ℕ}

theorem executes_fifo (h : Executes cfg states act) (i : ℕ) :
    ∀ rb, (states i).fifo = some rb → ∃ q, Holds rb q := by
  obtain ⟨g, hr⟩ := h.start
  have hstart : ∀ rb, (states 0).fifo = some rb → ∃ q, Holds rb q := by
    refine hr.inv (I := fun p => ∀ rb, p.1.fifo = some rb → ∃ q, Holds rb q) (fun p hp => ?_)
      fun p a p' hp _ hs => fifo_step hp hs.1
    rw [hp.1]
    exact nofun
  exact h.execution.inv (I := fun s => ∀ rb, s.fifo = some rb → ∃ q, Holds rb q) hstart
    (fun s a s' hs hstep => fifo_step hs hstep) i

/-- What the next step does to a write that has not ended. -/
theorem next_writing (h : Executes cfg states act) (hblock : fd.nonblock = false) (hd : Drained states act t)
    (hduring : During states t i) (hw : ((states i).call t).writing = some (fd, buf, ret)) :
    ¬Transfers states act t i ∧ ((states (i + 1)).call t).writing = some (fd, buf, ret) ∨
      Transfers states act t i ∧
        (ret + min (uint16 (buf.length - ret)) (states i).room = buf.length →
          (states (i + 1)).call t = .writeEnd buf.length true) ∧
        (ret + min (uint16 (buf.length - ret)) (states i).room ≠ buf.length →
          ((states (i + 1)).call t).writing = some (fd, buf, ret + min (uint16 (buf.length - ret)) (states i).room)) := by
  cases hact : act i with
  | none =>
    refine .inl ⟨fun ht => ?_, ?_⟩
    · rw [ht.1] at hact
      cases hact
    · rw [h.execution.quiet i hact, hw]
  | some a =>
    have hs := h.execution.step i a hact
    by_cases htransfer : a = .cont t ∧ ∃ wakeup, (states i).call t = .writeLoop fd buf ret wakeup
    · obtain ⟨rfl, wakeup, hc⟩ := htransfer
      have ht : Transfers states act t i := ⟨hact, fd, buf, ret, wakeup, hc⟩
      simp only [State.step, State.cont, hc] at hs
      exact .inr ⟨ht, transfer_cases (executes_fifo h i) (hd.reader i hduring ht) hblock hs⟩
    · refine .inl ⟨fun ht => htransfer ?_, step_writing hs hw htransfer⟩
      obtain ⟨hcont, fd', buf', ret', wakeup, hc⟩ := ht
      rw [hc] at hw
      cases hw
      exact ⟨Option.some.inj (hact.symm.trans hcont), wakeup, hc⟩

omit [DecidableEq T] in
theorem During.prev (h : During states t (i + 1)) : During states t i := fun j hj => h j (Nat.le_succ_of_le hj)

omit [DecidableEq T] in
theorem During.next (h : During states t i) (hi : ((states (i + 1)).call t).writing.isSome = true) :
    During states t (i + 1) := by
  intro j hj
  obtain rfl | hlt := Nat.eq_or_lt_of_le hj
  · exact hi
  · exact h j (Nat.le_of_lt_succ hlt)

/-- **A write gets no further than the count modulo 2¹⁶.** -/
theorem during_writing (h : Executes cfg states act) (hcall : (states 0).call t = .writeLock fd buf 0 false)
    (hblock : fd.nonblock = false) (hd : Drained states act t) (hduring : During states t i) :
    ∃ ret, ((states i).call t).writing = some (fd, buf, ret) ∧ ret ≤ uint16 buf.length := by
  induction i with
  | zero => exact ⟨0, by rw [hcall]; rfl, Nat.zero_le _⟩
  | succ i ih =>
    obtain ⟨ret, hw, hle⟩ := ih hduring.prev
    obtain ⟨-, hnext⟩ | ⟨-, hend, hmore⟩ := next_writing h hblock hd hduring.prev hw
    · exact ⟨ret, hnext, hle⟩
    · have hgo : ret + min (uint16 (buf.length - ret)) (states i).room ≠ buf.length := by
        intro hall
        have hsome := hduring (i + 1) (Nat.le_refl _)
        rw [hend hall] at hsome
        cases hsome
      refine ⟨_, hmore hgo, ?_⟩
      unfold uint16 at hle ⊢
      omega

/-- **A write that blocks ends by returning its count if the count is below 2¹⁶**, and not otherwise. -/
theorem endsWith_iff (h : Executes cfg states act) (hcall : (states 0).call t = .writeLock fd buf 0 false)
    (hblock : fd.nonblock = false) (hd : Drained states act t) :
    EndsWith states t buf.length ↔ buf.length < 2 ^ 16 := by
  have hlast : ∀ {i : ℕ}, During states t i → ¬During states t (i + 1) →
      (states (i + 1)).call t = .writeEnd buf.length true ∧ buf.length ≤ uint16 buf.length := by
    intro i hduring hstop
    obtain ⟨ret, hw, hle⟩ := during_writing h hcall hblock hd hduring
    obtain ⟨-, hnext⟩ | ⟨-, hend, hmore⟩ := next_writing h hblock hd hduring hw
    · exact absurd (hduring.next (by rw [hnext]; rfl)) hstop
    · by_cases hall : ret + min (uint16 (buf.length - ret)) (states i).room = buf.length
      · refine ⟨hend hall, ?_⟩
        unfold uint16 at hle hall ⊢
        omega
      · exact absurd (hduring.next (by rw [hmore hall]; rfl)) hstop
  constructor
  · rintro ⟨i, hduring, hend⟩
    have hstop : ¬During states t (i + 1) := by
      intro hnext
      have hsome := hnext (i + 1) (Nat.le_refl _)
      rw [hend] at hsome
      cases hsome
    have hmod := (hlast hduring hstop).2
    unfold uint16 at hmod
    omega
  · intro hlt
    -- the bytes that are left fall at each transfer that finds room
    let left (i : ℕ) : ℕ := buf.length - (((states i).call t).writing.map (·.2.2)).getD 0
    have hleft : ∀ {i ret : ℕ}, ((states i).call t).writing = some (fd, buf, ret) → left i = buf.length - ret := by
      intro i ret hw
      simp only [left, hw]
      rfl
    have hmono : ∀ i, During states t i → During states t (i + 1) → left (i + 1) ≤ left i := by
      intro i hduring hnext
      obtain ⟨ret, hw, hle⟩ := during_writing h hcall hblock hd hduring
      obtain ⟨-, hsame⟩ | ⟨-, hend, hmore⟩ := next_writing h hblock hd hduring hw
      · rw [hleft hw, hleft hsame]
      · by_cases hall : ret + min (uint16 (buf.length - ret)) (states i).room = buf.length
        · have hsome := hnext (i + 1) (Nat.le_refl _)
          rw [hend hall] at hsome
          cases hsome
        · rw [hleft hw, hleft (hmore hall)]
          omega
    have hfall : ∀ i, During states t i →
        ∃ k ≥ i, During states t k ∧ (During states t (k + 1) → left (k + 1) < left k) := by
      intro i hduring
      obtain ⟨k, hik, hk, htransfer, hroom⟩ := hd.room i hduring
      refine ⟨k, hik, hk, fun hnext => ?_⟩
      obtain ⟨ret, hw, hle⟩ := during_writing h hcall hblock hd hk
      obtain ⟨hno, -⟩ | ⟨-, hend, hmore⟩ := next_writing h hblock hd hk hw
      · exact absurd htransfer hno
      · by_cases hall : ret + min (uint16 (buf.length - ret)) (states k).room = buf.length
        · have hsome := hnext (k + 1) (Nat.le_refl _)
          rw [hend hall] at hsome
          cases hsome
        · rw [hleft hw, hleft (hmore hall)]
          unfold uint16 at hle hall ⊢
          omega
    have hstart : During states t 0 := by
      intro j hj
      obtain rfl := Nat.le_zero.1 hj
      rw [hcall]
      rfl
    obtain ⟨k, -, hk, hstop⟩ := Run.ends_of_measure hmono (fun i => During.prev) hfall hstart
    exact ⟨k, hk, (hlast hk hstop).1⟩

end

/-- A write of one byte that finds a reader and room, and ends. -/
def writesByte (s : State Unit) : Bool :=
  decide (s.call () = .writeLock ⟨.wronly, false⟩ [7] 0 false) &&
    (s.step fourBytes (.cont ())).any fun s₁ =>
      decide (s₁.call () = .writeLoop ⟨.wronly, false⟩ [7] 0 false) && decide (s₁.readers ≠ 0#8) &&
        decide (s₁.room ≠ 0) && (s₁.step fourBytes (.cont ())).any fun s₂ => decide (s₂.call () = .writeEnd 1 true)

end RtThread.Pipe
