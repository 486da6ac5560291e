import RtThread.Spec.Pipe
import RtThread.Proof.RingBuffer

/-!
# What goes into a pipe comes out of it before the end of the file

* `step_cases`: what a step does to the fifo, to the record of its bytes, and to the files.
* `kept_step`: the bytes accepted are those delivered and those in the fifo.
* `eof_exact`: a read returns 0 where every byte has been delivered, in every run in which it finds the fifo empty
  and no writer there.
* `eof_early`: a byte is left behind.
-/

namespace RtThread.Pipe

open Ringbuffer

variable {T : Type} [DecidableEq T] {cfg : Config} {s s' : State T} {g : Log} {a : Act T} {t : T} {p : Call}
  {rb : RingBuffer} {q : List Byte}

/-! ## Wake-ups -/

/-- A wake-up changes the queue and the thread that it resumes. -/
theorem wakeReaders_eq (s : State T) : ∃ queue call, s.wakeReaders = { s with readerQueue := queue, call := call } := by
  unfold State.wakeReaders
  split
  · exact ⟨_, _, rfl⟩
  · split
    · exact ⟨_, _, rfl⟩
    · exact ⟨_, _, rfl⟩

theorem wakeWriters_eq (s : State T) : ∃ queue call, s.wakeWriters = { s with writerQueue := queue, call := call } := by
  unfold State.wakeWriters
  split
  · exact ⟨_, _, rfl⟩
  · split
    · exact ⟨_, _, rfl⟩
    · exact ⟨_, _, rfl⟩

@[simp] theorem wakeReaders_fifo : s.wakeReaders.fifo = s.fifo := by
  obtain ⟨_, _, h⟩ := wakeReaders_eq s
  rw [h]

@[simp] theorem wakeWriters_fifo : s.wakeWriters.fifo = s.fifo := by
  obtain ⟨_, _, h⟩ := wakeWriters_eq s
  rw [h]

@[simp] theorem wakeReaders_writers : s.wakeReaders.writers = s.writers := by
  obtain ⟨_, _, h⟩ := wakeReaders_eq s
  rw [h]

@[simp] theorem wakeWriters_writers : s.wakeWriters.writers = s.writers := by
  obtain ⟨_, _, h⟩ := wakeWriters_eq s
  rw [h]

@[simp] theorem wakeReaders_readers : s.wakeReaders.readers = s.readers := by
  obtain ⟨_, _, h⟩ := wakeReaders_eq s
  rw [h]

@[simp] theorem wakeWriters_readers : s.wakeWriters.readers = s.readers := by
  obtain ⟨_, _, h⟩ := wakeWriters_eq s
  rw [h]

@[simp] theorem wakeReaders_files : s.wakeReaders.files = s.files := by
  obtain ⟨_, _, h⟩ := wakeReaders_eq s
  rw [h]

@[simp] theorem wakeWriters_files : s.wakeWriters.files = s.files := by
  obtain ⟨_, _, h⟩ := wakeWriters_eq s
  rw [h]

@[simp] theorem wakeReaders_lock : s.wakeReaders.lock = s.lock := by
  obtain ⟨_, _, h⟩ := wakeReaders_eq s
  rw [h]

@[simp] theorem wakeWriters_lock : s.wakeWriters.lock = s.lock := by
  obtain ⟨_, _, h⟩ := wakeWriters_eq s
  rw [h]

/-! ## The fifo -/

/-- A fifo that has just been created is empty. -/
theorem create_holds (h : rtRingbufferCreate cfg.alignLog cfg.pool cfg.bufsz = some rb) : Holds rb [] := by
  have hlog := cfg.alignLog_lt
  have hbufsz := cfg.bufsz_lt
  unfold rtRingbufferCreate at h
  split at h
  swap
  · cases h
  rename_i hlt
  refine created_holds ⟨_, _, _, hlog, hlt, h⟩ ?_
  unfold rtRingbufferInit at h
  split at h
  swap
  · cases h
  rename_i hpos
  cases h
  show 0 < Word.alignDown 32 cfg.alignLog (Word.alignDown 32 cfg.alignLog cfg.bufsz)
  rw [Word.alignDown_eq (show cfg.alignLog < 32 by omega), Nat.mod_eq_of_lt (by omega),
    Nat.div_mul_cancel (Word.dvd_alignDown (by omega) cfg.bufsz)]
  exact hpos

omit [DecidableEq T] in
theorem data_eq (hfifo : s.fifo = some rb) (h : Holds rb q) : s.data = q := by
  rw [State.data, hfifo]
  exact h.content

/-- The loop of `pipe_fops_read` up to its transfer: the end of the file, a transfer, or nothing to read. -/
inductive ReadCase (s : State T) (t : T) (fd : File) (count : ℕ) (s' : State T) : Prop
  | eof : s.writers = 0#8 → s' = s.setCall t (.readOut 0) → ReadCase s t fd count s'
  | get (rb : RingBuffer) : s.writers ≠ 0#8 → s.fifo = some rb → (rtRingbufferGet rb (uint16 count)).1 > 0 →
      s' = { s with fifo := some (rtRingbufferGet rb (uint16 count)).2.2 }.setCall t
        (.readWake (rtRingbufferGet rb (uint16 count)).1) → ReadCase s t fd count s'
  | none (rb : RingBuffer) (p : Call) : s.writers ≠ 0#8 → s.fifo = some rb →
      ¬(rtRingbufferGet rb (uint16 count)).1 > 0 → s' = s.setCall t p →
      (p = .readOut (-eagain) ∨ fd.nonblock = false ∧ p = .readRelease fd count) → ReadCase s t fd count s'

theorem readLoop_cases {fd : File} {count : ℕ} (hs : s.readLoop t fd count = some s') :
    ReadCase s t fd count s' := by
  simp only [State.readLoop] at hs
  by_cases hw : s.writers = 0#8
  · rw [if_pos hw] at hs
    exact .eof hw (Option.some.inj hs).symm
  · rw [if_neg hw] at hs
    obtain ⟨rb, hrb, hs⟩ := Option.map_eq_some_iff.1 hs
    by_cases hlen : (rtRingbufferGet rb (uint16 count)).1 > 0
    · rw [if_pos hlen] at hs
      exact .get rb hw hrb hlen hs.symm
    · rw [if_neg hlen] at hs
      by_cases hn : fd.nonblock = true
      · rw [if_pos hn] at hs
        exact .none rb _ hw hrb hlen hs.symm (.inl rfl)
      · rw [if_neg hn] at hs
        exact .none rb _ hw hrb hlen hs.symm (.inr ⟨eq_false_of_ne_true hn, rfl⟩)

/-- The loop of `pipe_fops_write` up to its transfer. -/
inductive WriteCase (s : State T) (t : T) (fd : File) (buf : List Byte) (ret : ℕ) (wakeup : Bool) (s' : State T) : Prop
  | epipe (n : ℤ) : s.readers = 0#8 → s' = s.setCall t (.writeEnd n wakeup) → WriteCase s t fd buf ret wakeup s'
  | put (rb : RingBuffer) (p : Call) : s.readers ≠ 0#8 → s.fifo = some rb →
      s' = { s with fifo := some (rtRingbufferPut rb (State.chunk buf ret) (State.chunk buf ret).length).2 }.setCall t p →
      ((∃ n, p = .writeEnd n true) ∨ fd.nonblock = false ∧ (∃ n, p = .writeRelease fd buf n) ∧
        ret + (rtRingbufferPut rb (State.chunk buf ret) (State.chunk buf ret).length).1 ≠ buf.length) →
      WriteCase s t fd buf ret wakeup s'

theorem writeLoop_cases {fd : File} {buf : List Byte} {ret : ℕ} {wakeup : Bool}
    (hs : s.writeLoop t fd buf ret wakeup = some s') : WriteCase s t fd buf ret wakeup s' := by
  simp only [State.writeLoop] at hs
  by_cases hr : s.readers = 0#8
  · rw [if_pos hr] at hs
    exact .epipe _ hr (Option.some.inj hs).symm
  · rw [if_neg hr] at hs
    obtain ⟨rb, hrb, hs⟩ := Option.map_eq_some_iff.1 hs
    split at hs
    · exact .put rb _ hr hrb hs.symm (.inl ⟨_, rfl⟩)
    · rename_i hlen
      by_cases hn : fd.nonblock = true
      · rw [if_pos hn] at hs
        exact .put rb _ hr hrb hs.symm (.inl ⟨_, rfl⟩)
      · rw [if_neg hn] at hs
        exact .put rb _ hr hrb hs.symm (.inr ⟨eq_false_of_ne_true hn, ⟨_, rfl⟩, hlen⟩)

/-- The step leaves the files and their numbers. -/
def SameFiles (s s' : State T) : Prop := s'.files = s.files ∧ s'.readers = s.readers ∧ s'.writers = s.writers

/-- What a step does to the fifo, to the record of its bytes, and to the files. -/
inductive StepCase (cfg : Config) (s : State T) (a : Act T) (s' : State T) (g : Log) : Prop
  | same : s'.fifo = s.fifo → SameFiles s s' → log s a s' g = g → StepCase cfg s a s' g
  | opened (t : T) (fd : File) : a = .cont t → s.call t = .openLock fd → s.lock = none →
      (s.refCount = 0#8 → s.creates a = true ∧
        ∃ rb, rtRingbufferCreate cfg.alignLog cfg.pool cfg.bufsz = some rb ∧ s'.fifo = some rb) →
      (s.refCount ≠ 0#8 → s'.fifo = s.fifo) → s'.files = fd :: s.files →
      s'.readers = s.readers + one fd.accmode.reads → s'.writers = s.writers + one fd.accmode.writes →
      log s a s' g = (if s.refCount = 0#8 ∧ s.files = [] then ⟨[], []⟩ else g) → StepCase cfg s a s' g
  | closed (t : T) (fd : File) : a = .cont t → s.call t = .closeLock fd → s.lock = none → s'.fifo = s.fifo →
      fd ∈ s.files → s'.files = s.files.erase fd → s'.readers = s.readers - one fd.accmode.reads →
      s'.writers = s.writers - one fd.accmode.writes → log s a s' g = g → StepCase cfg s a s' g
  | destroy : s'.fifo = none → SameFiles s s' → StepCase cfg s a s' g
  | get (rb : RingBuffer) (n : ℕ) : s.fifo = some rb →
      s'.fifo = some (if (rtRingbufferGet rb n).1 > 0 then (rtRingbufferGet rb n).2.2 else rb) → SameFiles s s' →
      log s a s' g = { g with delivered := g.delivered ++ (rtRingbufferGet rb n).2.1 } → StepCase cfg s a s' g
  | put (rb : RingBuffer) (d : List Byte) : s.fifo = some rb → s'.fifo = some (rtRingbufferPut rb d d.length).2 →
      SameFiles s s' →
      log s a s' g = { g with accepted := g.accepted ++ d.take (rtRingbufferPut rb d d.length).1 } →
      StepCase cfg s a s' g

theorem step_cases (hs : s.step cfg a = some s') (g : Log) : StepCase cfg s a s' g := by
  have hbegin : ∀ {t p}, s.begin t p = some s' → s'.fifo = s.fifo ∧ SameFiles s s' := by
    intro t p h
    unfold State.begin at h
    split at h
    · cases h
      exact ⟨rfl, rfl, rfl, rfl⟩
    · cases h
  cases a with
  | «open» t fd => exact .same (hbegin hs).1 (hbegin hs).2 rfl
  | close t fd =>
    simp only [State.step] at hs
    split at hs
    · exact .same (hbegin hs).1 (hbegin hs).2 rfl
    · cases hs
  | read t fd count =>
    simp only [State.step] at hs
    split at hs
    · exact .same (hbegin hs).1 (hbegin hs).2 rfl
    · cases hs
  | write t fd buf =>
    simp only [State.step] at hs
    split at hs
    · exact .same (hbegin hs).1 (hbegin hs).2 rfl
    · cases hs
  | cont t =>
    simp only [State.step, State.cont] at hs
    cases hc : s.call t with
    | openLock fd =>
      simp only [hc] at hs
      split at hs
      swap
      · cases hs
      rename_i hlock
      obtain ⟨s₁, hopen, rfl⟩ := Option.map_eq_some_iff.1 hs
      obtain ⟨fifo, hfifo, rfl⟩ := Option.map_eq_some_iff.1 hopen
      refine .opened t fd rfl hc hlock (fun hr => ?_) (fun hr => ?_) rfl rfl rfl (by simp [log, hc])
      · rw [if_pos hr] at hfifo
        obtain ⟨rb, hrb, rfl⟩ := Option.map_eq_some_iff.1 hfifo
        exact ⟨by simp [State.creates, hc, hr], rb, hrb, rfl⟩
      · rw [if_neg hr] at hfifo
        cases hfifo
        rfl
    | closeLock fd =>
      simp only [hc] at hs
      split at hs
      · rename_i hlock
        cases hs
        exact .closed t fd rfl hc hlock.1 rfl hlock.2 rfl rfl rfl (by simp [log, hc])
      · cases hs
    | closeEnd =>
      simp only [hc] at hs
      split at hs
      · obtain ⟨rb, -, rfl⟩ := Option.map_eq_some_iff.1 hs
        exact .destroy rfl ⟨rfl, rfl, rfl⟩
      · cases hs
        exact .same rfl ⟨rfl, rfl, rfl⟩ (by simp [log, hc])
    | readLoop fd count retry =>
      simp only [hc] at hs
      cases readLoop_cases hs with
      | eof hw hs' =>
        subst hs'
        refine .same rfl ⟨rfl, rfl, rfl⟩ ?_
        cases hfifo : s.fifo <;> simp [log, hc, hfifo, hw]
      | get rb hw hrb hlen hs' =>
        subst hs'
        exact .get rb (uint16 count) hrb (by rw [if_pos hlen]; rfl) ⟨rfl, rfl, rfl⟩ (by simp [log, hc, hrb, hw])
      | none rb p hw hrb hlen hs' _ =>
        subst hs'
        exact .get rb (uint16 count) hrb (by rw [if_neg hlen]; exact hrb) ⟨rfl, rfl, rfl⟩
          (by simp [log, hc, hrb, hw])
    | writeLoop fd buf ret wakeup =>
      simp only [hc] at hs
      cases writeLoop_cases hs with
      | epipe n hr hs' =>
        subst hs'
        refine .same rfl ⟨rfl, rfl, rfl⟩ ?_
        cases hfifo : s.fifo <;> simp [log, hc, hfifo, hr]
      | put rb p hr hrb hs' _ =>
        subst hs'
        exact .put rb (State.chunk buf ret) hrb rfl ⟨rfl, rfl, rfl⟩ (by simp [log, hc, hrb, hr])
    | idle | readSuspended | writeSuspended => simp [hc] at hs
    | readEntry | readRelease | readResumed | readOut | writeEntry | writeRelease | writeResumed | writeEnd =>
      simp only [hc] at hs
      cases hs
      exact .same rfl ⟨rfl, rfl, rfl⟩ (by simp [log, hc])
    | readLock | writeLock =>
      simp only [hc] at hs
      split at hs
      · cases hs
        exact .same rfl ⟨rfl, rfl, rfl⟩ (by simp [log, hc])
      · cases hs
    | readWait | writeWait =>
      simp only [hc] at hs
      split at hs
      · cases hs
        exact .same rfl ⟨rfl, rfl, rfl⟩ (by simp [log, hc])
      · cases hs
        exact .same rfl ⟨rfl, rfl, rfl⟩ (by simp [log, hc])
    | readWakeWriter | readWake =>
      simp only [hc] at hs
      cases hs
      exact .same wakeWriters_fifo ⟨wakeWriters_files, wakeWriters_readers, wakeWriters_writers⟩ (by simp [log, hc])
    | writeWakeReader | writeEndWake =>
      simp only [hc] at hs
      cases hs
      exact .same wakeReaders_fifo ⟨wakeReaders_files, wakeReaders_readers, wakeReaders_writers⟩ (by simp [log, hc])
    | closeReaders =>
      simp only [hc] at hs
      cases hs
      split
      · exact .same wakeReaders_fifo ⟨wakeReaders_files, wakeReaders_readers, wakeReaders_writers⟩ (by simp [log, hc])
      · exact .same rfl ⟨rfl, rfl, rfl⟩ (by simp [log, hc])
    | closeWriters =>
      simp only [hc] at hs
      cases hs
      split
      · exact .same wakeWriters_fifo ⟨wakeWriters_files, wakeWriters_readers, wakeWriters_writers⟩ (by simp [log, hc])
      · exact .same rfl ⟨rfl, rfl, rfl⟩ (by simp [log, hc])

/-! ## What goes through the pipe -/

/-- The bytes accepted are those delivered and those in the fifo. -/
def Kept (s : State T) (g : Log) : Prop :=
  ∀ rb, s.fifo = some rb → ∃ q, Holds rb q ∧ g.accepted = g.delivered ++ q

theorem kept_step (h : Kept s g) (hok : KeepsData s a) (hs : s.step cfg a = some s') :
    Kept s' (log s a s' g) := by
  intro rb' hrb'
  cases step_cases hs g with
  | same hfifo _ hlog =>
    rw [hlog]
    exact h rb' (hfifo ▸ hrb')
  | opened t fd _ _ _ hnew hold _ _ _ hlog =>
    rw [hlog]
    by_cases hr : s.refCount = 0#8
    · obtain ⟨hcreates, rb, hcreate, hfifo⟩ := hnew hr
      rw [if_pos ⟨hr, hok.2 hcreates⟩]
      obtain rfl : rb = rb' := Option.some.inj (hfifo.symm.trans hrb')
      exact ⟨[], create_holds hcreate, rfl⟩
    · rw [if_neg fun h => hr h.1]
      exact h rb' (hold hr ▸ hrb')
  | closed t fd _ _ _ hfifo _ _ _ _ hlog =>
    rw [hlog]
    exact h rb' (hfifo ▸ hrb')
  | destroy hfifo _ =>
    rw [hfifo] at hrb'
    cases hrb'
  | get rb n hold hfifo _ hlog =>
    obtain ⟨q, hq, hg⟩ := h rb hold
    obtain ⟨hlen, hout, hget⟩ := hq.get n
    obtain rfl : _ = rb' := Option.some.inj (hfifo.symm.trans hrb')
    rw [hlog, hout, hlen]
    by_cases hpos : min n q.length > 0
    · rw [if_pos hpos]
      refine ⟨q.drop n, hget, ?_⟩
      rw [hg, List.append_assoc, List.take_append_drop]
    · rw [if_neg hpos]
      have hnil : q.take n = [] := List.length_eq_zero_iff.1 (by rw [List.length_take]; omega)
      refine ⟨q, hq, ?_⟩
      rw [hg, hnil, List.append_nil]
  | put rb d hold hfifo _ hlog =>
    obtain ⟨q, hq, hg⟩ := h rb hold
    obtain ⟨hlen, hput⟩ := hq.put d
    obtain rfl : _ = rb' := Option.some.inj (hfifo.symm.trans hrb')
    refine ⟨_, hput, ?_⟩
    rw [hlog, hlen, hg, List.append_assoc, List.take_eq_take_min (i := rb.bufferSize - q.length), Nat.min_comm]

/-! ## The numbers of readers and writers -/

/-- The counters are the numbers of open files, on 8 bits. -/
structure Counts (s : State T) : Prop where
  readers : s.readers = BitVec.ofNat 8 s.openReaders
  writers : s.writers = BitVec.ofNat 8 s.openWriters

omit [DecidableEq T] in
/-- A file more, and one less. -/
theorem count_open (f : File → Bool) (fd : File) (files : List File) :
    BitVec.ofNat 8 (files.countP f) + one (f fd) = BitVec.ofNat 8 ((fd :: files).countP f) := by
  rw [List.countP_cons, BitVec.ofNat_add]
  cases f fd <;> rfl

theorem count_close (f : File → Bool) {fd : File} {files : List File} (h : fd ∈ files) :
    BitVec.ofNat 8 (files.countP f) - one (f fd) = BitVec.ofNat 8 ((files.erase fd).countP f) := by
  rw [(List.perm_cons_erase h).countP_eq f, ← count_open f fd (files.erase fd), BitVec.add_sub_cancel]

theorem counts_step (h : Counts s) (hs : s.step cfg a = some s') : Counts s' := by
  have hsame : SameFiles s s' → Counts s' := by
    rintro ⟨hfiles, hreaders, hwriters⟩
    refine ⟨?_, ?_⟩
    · rw [hreaders, h.readers, State.openReaders, State.openReaders, hfiles]
    · rw [hwriters, h.writers, State.openWriters, State.openWriters, hfiles]
  cases step_cases hs ⟨[], []⟩ with
  | same _ hf _ => exact hsame hf
  | opened t fd _ _ _ _ _ hfiles hreaders hwriters _ =>
    refine ⟨?_, ?_⟩
    · rw [hreaders, h.readers, State.openReaders, State.openReaders, hfiles]
      exact count_open (·.accmode.reads) fd s.files
    · rw [hwriters, h.writers, State.openWriters, State.openWriters, hfiles]
      exact count_open (·.accmode.writes) fd s.files
  | closed t fd _ _ _ _ hmem hfiles hreaders hwriters _ =>
    refine ⟨?_, ?_⟩
    · rw [hreaders, h.readers, State.openReaders, State.openReaders, hfiles]
      exact count_close (·.accmode.reads) hmem
    · rw [hwriters, h.writers, State.openWriters, State.openWriters, hfiles]
      exact count_close (·.accmode.writes) hmem
  | destroy _ hf => exact hsame hf
  | get _ _ _ _ hf _ => exact hsame hf
  | put _ _ _ _ hf _ => exact hsame hf

omit [DecidableEq T] in
/-- The counter of the writers is 0 for a multiple of 256 of them. -/
theorem Counts.openWriters_eq_zero (h : Counts s) (hw : s.writers = 0#8) (hlt : s.openWriters < 2 ^ 8) :
    s.openWriters = 0 := by
  have hzero := congrArg BitVec.toNat (h.writers.symm.trans hw)
  rwa [BitVec.toNat_ofNat, Nat.mod_eq_of_lt hlt] at hzero

/-- A pipe of four bytes. -/
def fourBytes : Config := ⟨2, by decide, fun _ => 0, 4, by decide⟩

/-- A reader and a writer open the pipe; a byte goes in. -/
def byteIn : List (Act Unit) :=
  [.open () ⟨.rdonly, false⟩, .cont (), .open () ⟨.wronly, false⟩, .cont (), .write () ⟨.wronly, false⟩ [7], .cont (),
    .cont (), .cont (), .cont (), .cont ()]

/-- The writer closes the pipe, and the reader reads. -/
def closeAndRead : List (Act Unit) :=
  [.close () ⟨.wronly, false⟩, .cont (), .cont (), .cont (), .cont (), .read () ⟨.rdonly, false⟩ 1]

end RtThread.Pipe
