import RtThread.Spec.Ulog
import RtThread.Proof.Kprintf

/-!
# Log lines

A line in the buffer holds a text, cut at the end of the buffer (`Holds`). Each step of `ulog_formater` adds to the
text (`append_holds`, `appendName_holds`, `message_holds`), and the end of the line finds its room (`finish_holds`).

The converse: two memories that differ in a place outside the buffer are the same behind a step that writes there
(`appendName_written`, `message_written`), so the formatter cannot leave that place as it was.

* `formater_wellFormed_iff`: **when a log line fits and is well formed**.
-/

namespace RtThread.Ulog.Config

open Kservice Emit

variable {cfg : Config} {logBuf : ℕ} {mem mem' : ℕ → Char} {s s' : Line} {text l message : List Char} {level : Level}
  {tag name info : List Char} {newline : Bool} {fmt : List Char} {args : List Arg} {a : ℕ}

/-! ## Lines that hold a text -/

/-- The line holds the text as far as the buffer goes, and the memory outside is `mem`. -/
structure Holds (cfg : Config) (logBuf : ℕ) (mem : ℕ → Char) (s : Line) (text : List Char) : Prop where
  len : s.logLen = min text.length cfg.lineBufSize
  chars : ∀ i < s.logLen, some (s.mem (logBuf + i)) = text[i]?
  frame : ∀ i, ¬(logBuf ≤ i ∧ i < logBuf + cfg.lineBufSize) → s.mem i = mem i

theorem holds_nil : Holds cfg logBuf mem ⟨mem, 0⟩ [] where
  len := (Nat.zero_min _).symm
  chars := fun i hi => absurd hi (Nat.not_lt_zero i)
  frame := fun _ _ => rfl

theorem Holds.length_eq (h : Holds cfg logBuf mem s text) (hlt : s.logLen < cfg.lineBufSize) :
    s.logLen = text.length := by
  have := h.len
  omega

/-- A run of characters behind the text. -/
theorem Holds.add (h : Holds cfg logBuf mem s text) {m : ℕ → Char} {n : ℕ}
    (hm : m = stored s.mem (logBuf + s.logLen) (logBuf + cfg.lineBufSize) l)
    (hn : n = min l.length (cfg.lineBufSize - s.logLen)) : Holds cfg logBuf mem ⟨m, s.logLen + n⟩ (text ++ l) := by
  have hlen := h.len
  subst hm
  refine ⟨?_, fun i hi => ?_, fun i hi => ?_⟩
  · simp only [List.length_append]
    omega
  · simp only at hi ⊢
    rcases Nat.lt_or_ge i s.logLen with hlt | hge
    · rw [stored_outside (by omega), h.chars i hlt, List.getElem?_append_left (by omega)]
    · obtain ⟨k, rfl⟩ := Nat.exists_eq_add_of_le hge
      rw [← Nat.add_assoc, stored_get (by omega) (by omega), List.getElem?_append_right (by omega)]
      congr 1
      omega
  · simp only
    rw [stored_outside (by omega), h.frame i hi]

/-- `ulog_strcpy` stores what fits. -/
theorem strcpyLoop_eq {curLen : ℕ} (h : curLen ≤ cfg.lineBufSize) :
    cfg.strcpyLoop curLen (logBuf + curLen) mem l =
      (stored mem (logBuf + curLen) (logBuf + cfg.lineBufSize) l, min l.length (cfg.lineBufSize - curLen)) := by
  induction l generalizing curLen mem with
  | nil =>
    rw [strcpyLoop, stored_nil, List.length_nil, Nat.zero_min]
  | cons c l ih =>
    rw [strcpyLoop]
    split
    · rename_i hlt
      rw [Nat.add_assoc, ih (by omega), List.length_cons, ← stored_cons, if_pos (by omega), Nat.add_assoc]
      refine Prod.ext rfl ?_
      simp only
      omega
    · rename_i hge
      have hfull : stored mem (logBuf + curLen) (logBuf + cfg.lineBufSize) (c :: l) = mem :=
        funext fun i => stored_outside (by omega)
      rw [hfull]
      refine Prod.ext rfl ?_
      simp only
      omega

/-- **A copied string** goes behind the text. -/
theorem append_holds (h : Holds cfg logBuf mem s text) (l : List Char) :
    ∃ s', cfg.append logBuf (some l) s = some s' ∧ Holds cfg logBuf mem s' (text ++ l) := by
  have hle : s.logLen ≤ cfg.lineBufSize := by
    rw [h.len]
    exact Nat.min_le_right _ _
  refine ⟨_, ?_, h.add rfl rfl⟩
  rw [append, ulogStrcpy, Option.map_some, Option.map_some, strcpyLoop_eq hle]

theorem rtStrncpy_eq {dst bound : ℕ} (h : dst + l.length ≤ bound) (hb : bound < 2 ^ 32) :
    rtStrncpy dst mem l l.length = stored mem dst bound l := by
  induction l generalizing dst mem with
  | nil => rw [stored_nil, List.length_nil, rtStrncpy]
  | cons c l ih =>
    rw [List.length_cons] at h
    have haddr : address dst = dst := Nat.mod_eq_of_lt (by omega)
    rw [List.length_cons, rtStrncpy, haddr, ih (by omega), ← stored_cons, if_pos (by omega)]

/-- **The thread name** goes behind the text where it fits. -/
theorem appendName_holds (h : Holds cfg logBuf mem s text) (hbuf : logBuf + cfg.lineBufSize < 2 ^ 32)
    (hname : name.length ≤ cfg.nameMax) (hfit : name = [] ∨ text.length + name.length ≤ cfg.lineBufSize) :
    Holds cfg logBuf mem (cfg.appendName logBuf name s) (text ++ name) := by
  have hlen := h.len
  unfold appendName
  rw [Nat.min_eq_left hname]
  rcases hfit with rfl | hfit
  · rw [List.append_nil]
    exact h
  · exact h.add (rtStrncpy_eq (by omega) hbuf) (by omega)

/-! ## The message -/

/-- The line is the beginning of a longer text. -/
theorem Holds.cut (h : ∀ i < s.logLen, some (s.mem (logBuf + i)) = text[i]?)
    (hframe : ∀ i, ¬(logBuf ≤ i ∧ i < logBuf + cfg.lineBufSize) → s.mem i = mem i) (hle : s.logLen ≤ cfg.lineBufSize) :
    Holds cfg logBuf mem s (text.take s.logLen) := by
  have hlen : s.logLen ≤ text.length := by
    by_contra hgt
    have hlast := h (s.logLen - 1) (by omega)
    rw [List.getElem?_eq_none (by omega)] at hlast
    cases hlast
  refine ⟨?_, fun i hi => ?_, hframe⟩
  · rw [List.length_take]
    omega
  · rw [h i hi, List.getElem?_take_of_lt hi]

/-- `rt_vsnprintf` with no room. -/
theorem rtVsnprintf_zero {buf : ℕ} (mem : ℕ → Char) (hbuf : buf < 2 ^ 32)
    (hout : output cfg.special fmt args = some message) : rtVsnprintf cfg.special mem buf 0 fmt args =
      some ((message.foldl (Cursor.put 32 buf) ⟨mem, buf⟩).mem, BitVec.ofNat 32 message.length) := by
  have hend : address (buf + 0) = buf := Nat.mod_eq_of_lt hbuf
  have hstr : (message.foldl (Cursor.put 32 buf) ⟨mem, buf⟩).str = address (buf + message.length) := foldl_put_str hbuf
  have hret := returned_eq buf message.length
  unfold rtVsnprintf
  simp only [hend, lt_irrefl, if_false, formatLoop_output hout, hstr, hret, Option.bind_eq_bind, Option.bind_some,
    Option.pure_def]

/-- The line behind the message and the reserve. -/
theorem reserve_eq {n : ℕ} (h : s.logLen = n ∨ s.logLen = cfg.lineBufSize ∧ cfg.lineBufSize ≤ n) :
    cfg.reserve s = ⟨s.mem, min n (cfg.lineBufSize - 6)⟩ := by
  have h80 := cfg.lineBufSize_ge
  have hend : csiEnd.length = 4 := rfl
  have hnewline : ulogNewlineSign.length = 2 := rfl
  unfold reserve
  split
  · refine Line.ext rfl ?_
    simp only
    omega
  · refine Line.ext rfl ?_
    simp only
    omega

/-- **The message** goes behind the text, and what does not fit with the end of the line is cut off. -/
theorem message_holds (h : Holds cfg logBuf mem s text) (hpos : 0 < logBuf) (hbuf : logBuf + cfg.lineBufSize < 2 ^ 32)
    (hout : output cfg.special fmt args = some message)
    (hroom : if text.length < cfg.lineBufSize then logBuf + text.length + message.length < 2 ^ 32
      else logBuf + cfg.lineBufSize + message.length ≤ 2 ^ 32) :
    ∃ s', cfg.appendMessage logBuf fmt args s = some s' ∧ ∃ body, body <+: text ++ message ∧
      body.length + 6 ≤ cfg.lineBufSize ∧ Holds cfg logBuf mem (cfg.reserve s') body := by
  have h80 := cfg.lineBufSize_ge
  have hint := cfg.lineBufSize_lt
  have hlen := h.len
  by_cases hlt : text.length < cfg.lineBufSize
  · rw [if_pos hlt] at hroom
    have hsize : address (cfg.lineBufSize + 2 ^ 32 - s.logLen) = cfg.lineBufSize - s.logLen := by
      unfold address
      omega
    have hend : logBuf + s.logLen + (cfg.lineBufSize - s.logLen) = logBuf + cfg.lineBufSize := by omega
    have hrun := @rtVsnprintf_eq cfg.special (logBuf + s.logLen) fmt message args (cfg.lineBufSize - s.logLen)
      s.mem (by omega) (by omega) hout
    rw [hend, foldl_put (by omega)] at hrun
    have hadd := h.add (l := message) rfl rfl
    have hnul : nulAt (logBuf + s.logLen) (cfg.lineBufSize - s.logLen) message.length =
        logBuf + min (s.logLen + message.length) (cfg.lineBufSize - 1) := by
      unfold nulAt address
      rw [Nat.mod_eq_of_lt (by omega), hend]
      split <;> omega
    rw [hnul] at hrun
    simp only at hrun
    generalize hm : stored s.mem (logBuf + s.logLen) (logBuf + cfg.lineBufSize) message = m at hrun hadd
    have hret : (BitVec.ofNat 32 message.length).toNat = message.length := by
      rw [BitVec.toNat_ofNat, Nat.mod_eq_of_lt (by omega)]
    have hres : ∃ s', cfg.appendMessage logBuf fmt args s = some s' ∧ cfg.reserve s' =
        ⟨Function.update m (logBuf + min (s.logLen + message.length) (cfg.lineBufSize - 1)) '\x00',
          min (s.logLen + message.length) (cfg.lineBufSize - 6)⟩ := by
      unfold appendMessage
      simp only [hsize, hrun, Option.bind_eq_bind, Option.bind_some, hret]
      split
      · rename_i hfit
        unfold address at hfit
        exact ⟨_, rfl, reserve_eq (.inl rfl)⟩
      · rename_i hlong
        refine ⟨_, rfl, reserve_eq (.inr ⟨rfl, ?_⟩)⟩
        -- a text whose length is no `int` does not fit
        by_contra hshort
        refine hlong ⟨by unfold address; omega, ?_⟩
        rw [BitVec.toInt_eq_toNat_of_lt (by rw [hret]; omega), hret]
        omega
    obtain ⟨s', hs', hreserve⟩ := hres
    refine ⟨s', hs', _, List.take_prefix (min (s.logLen + message.length) (cfg.lineBufSize - 6)) _, ?_, ?_⟩
    · rw [List.length_take]
      omega
    · rw [hreserve]
      refine Holds.cut (fun i hi => ?_) (fun i hi => ?_) (by simp only; omega)
      · simp only at hi ⊢
        rw [Function.update_of_ne (by omega)]
        exact hadd.chars i (by simp only; omega)
      · simp only
        rw [Function.update_of_ne (by omega)]
        exact hadd.frame i hi
  · rw [if_neg hlt] at hroom
    have hfull : s.logLen = cfg.lineBufSize := by omega
    have hsize : address (cfg.lineBufSize + 2 ^ 32 - s.logLen) = 0 := by
      unfold address
      omega
    have hrun := @rtVsnprintf_zero cfg message fmt args (logBuf + s.logLen) s.mem (by omega) hout
    rw [foldl_put_above le_rfl (by omega)] at hrun
    have hret : (BitVec.ofNat 32 message.length).toNat = message.length := by
      rw [BitVec.toNat_ofNat, Nat.mod_eq_of_lt (by omega)]
    have hres : ∃ s', cfg.appendMessage logBuf fmt args s = some s' ∧ cfg.reserve s' =
        ⟨s.mem, min cfg.lineBufSize (cfg.lineBufSize - 6)⟩ := by
      unfold appendMessage
      simp only [hsize, hrun, Option.bind_eq_bind, Option.bind_some, hret]
      split
      · rename_i hfit
        unfold address at hfit
        exact ⟨_, rfl, reserve_eq (.inl (by simp only; omega))⟩
      · exact ⟨_, rfl, reserve_eq (.inl rfl)⟩
    obtain ⟨s', hs', hreserve⟩ := hres
    refine ⟨s', hs', _, List.take_prefix (min cfg.lineBufSize (cfg.lineBufSize - 6)) _, ?_, ?_⟩
    · rw [List.length_take]
      omega
    · rw [hreserve]
      refine Holds.cut (fun i hi => ?_) h.frame (by simp only; omega)
      simp only at hi ⊢
      rw [h.chars i (by omega), List.getElem?_append_left (by omega)]

/-! ## The header and the end of the line -/

/-- Copy strings one after the other. -/
def appendAll (cfg : Config) (logBuf : ℕ) : List (List Char) → Line → Option Line
  | [], s => some s
  | l :: ls, s => (cfg.append logBuf (some l) s).bind (appendAll cfg logBuf ls)

theorem appendAll_holds (h : Holds cfg logBuf mem s text) (ls : List (List Char)) :
    ∃ s', cfg.appendAll logBuf ls s = some s' ∧ Holds cfg logBuf mem s' (text ++ ls.flatten) := by
  induction ls generalizing s text with
  | nil => exact ⟨s, rfl, by rw [List.flatten_nil, List.append_nil]; exact h⟩
  | cons l ls ih =>
    obtain ⟨s₁, h₁, hs₁⟩ := append_holds h l
    obtain ⟨s₂, h₂, hs₂⟩ := ih hs₁
    refine ⟨s₂, ?_, by rw [List.flatten_cons, ← List.append_assoc]; exact hs₂⟩
    rw [appendAll, h₁, Option.bind_some, h₂]

/-- The strings before the thread name. -/
def headerSources (cfg : Config) (level : Level) (info tag : List Char) : List (List Char) :=
  (cfg.colorOutputInfo level).elim [] (fun color => [csiStart, color]) ++ [info, tag, [' ']]

/-- The strings behind the message. -/
def endSources (cfg : Config) (level : Level) (newline : Bool) : List (List Char) :=
  (if newline then [ulogNewlineSign] else []) ++ (if (cfg.colorOutputInfo level).isSome then [csiEnd] else [])

theorem headerSources_flatten : (cfg.headerSources level info tag).flatten = cfg.start level info tag := by
  unfold headerSources start
  cases cfg.colorOutputInfo level <;> simp

theorem endSources_flatten : (cfg.endSources level newline).flatten = cfg.trailer level newline := by
  unfold endSources trailer
  cases newline <;> cases (cfg.colorOutputInfo level).isSome <;> simp

/-- The steps from the thread name on. -/
def named (cfg : Config) (logBuf : ℕ) (level : Level) (newline : Bool) (fmt : List Char) (args : List Arg) (s : Line) :
    Option ((ℕ → Char) × ℕ) := do
  let s ← cfg.append logBuf (some [':', ' ']) s
  let s ← cfg.appendMessage logBuf fmt args s
  let s ← cfg.appendAll logBuf (cfg.endSources level newline) (cfg.reserve s)
  return (s.mem, s.logLen)

theorem named_eq {s₁ s₂ s₃ : Line} (h₁ : cfg.append logBuf (some [':', ' ']) s = some s₁)
    (h₂ : cfg.appendMessage logBuf fmt args s₁ = some s₂)
    (h₃ : cfg.appendAll logBuf (cfg.endSources level newline) (cfg.reserve s₂) = some s₃) :
    cfg.named logBuf level newline fmt args s = some (s₃.mem, s₃.logLen) := by
  rw [named, h₁, Option.bind_eq_bind, Option.bind_some, h₂, Option.bind_some, h₃]
  rfl

/-- **The formatter as its parts**: the header, the thread name, and the rest. -/
theorem ulogFormater_eq (hinfo : levelOutputInfo level = some info) :
    cfg.ulogFormater mem logBuf level tag name newline fmt args =
      (cfg.appendAll logBuf (cfg.headerSources level info tag) ⟨mem, 0⟩).bind fun s =>
        cfg.named logBuf level newline fmt args (cfg.appendName logBuf name s) := by
  unfold ulogFormater headerSources named endSources
  cases cfg.colorOutputInfo level <;> cases newline
  all_goals
    simp -implicitDefEqProofs only [appendIf, appendAll, hinfo, Option.isSome_some, Option.isSome_none, Option.elim_some, Option.elim_none,
      if_true, if_false, Bool.false_eq_true, List.nil_append, List.cons_append, Option.bind_eq_bind, Option.bind_some,
      Option.bind_assoc, Option.pure_def]

theorem trailer_length : (cfg.trailer level newline).length ≤ 6 := by
  unfold trailer
  rw [List.length_append]
  split <;> split <;> decide

/-- A line that fits holds its whole text. -/
theorem Holds.list (h : Holds cfg logBuf mem s text) (hle : text.length ≤ cfg.lineBufSize) :
    (List.range s.logLen).map (fun i => s.mem (logBuf + i)) = text := by
  have hlen : s.logLen = text.length := h.len.trans (Nat.min_eq_left hle)
  apply List.ext_getElem?
  intro i
  rw [List.getElem?_map]
  by_cases hi : i < text.length
  · rw [List.getElem?_range (by omega), Option.map_some, h.chars i (by omega)]
  · rw [List.getElem?_eq_none (by rw [List.length_range]; omega), Option.map_none,
      List.getElem?_eq_none (by omega)]

/-! ## Lines that fit -/

theorem wellFormed_of_fits (hpos : 0 < logBuf) (hbuf : logBuf + cfg.lineBufSize < 2 ^ 32)
    (hname : name.length ≤ cfg.nameMax) (hout : output cfg.special fmt args = some message)
    (h : cfg.Fits logBuf level tag name message) :
    cfg.WellFormed logBuf level tag name newline fmt args message := by
  obtain ⟨info, hinfo, hfit, hroom⟩ := h
  intro mem
  obtain ⟨s₁, h₁, hs₁⟩ := appendAll_holds (@holds_nil cfg logBuf mem) (cfg.headerSources level info tag)
  rw [List.nil_append, headerSources_flatten] at hs₁
  have hs₂ := appendName_holds hs₁ hbuf hname hfit
  obtain ⟨s₃, h₃, hs₃⟩ := append_holds hs₂ [':', ' ']
  have hlen : (cfg.start level info tag ++ name ++ [':', ' ']).length =
      (cfg.start level info tag).length + name.length + 2 := by
    rw [List.length_append, List.length_append]
    rfl
  rw [← hlen] at hroom
  obtain ⟨s₄, h₄, body, hbody, hsix, hs₄⟩ := message_holds hs₃ hpos hbuf hout hroom
  obtain ⟨s₅, h₅, hs₅⟩ := appendAll_holds hs₄ (cfg.endSources level newline)
  rw [endSources_flatten] at hs₅
  have htrailer := @trailer_length cfg level newline
  refine ⟨s₅.mem, s₅.logLen, info, body, ?_, hs₅.frame, ?_, hinfo, hbody, hs₅.list ?_⟩
  · rw [ulogFormater_eq hinfo, h₁, Option.bind_some, named_eq h₃ h₄ h₅]
  · rw [hs₅.len]
    exact Nat.min_le_right _ _
  · rw [List.length_append]
    omega

/-! ## Two memories -/

/-- Lines of one length in memories that agree but at `a`. -/
def Lines (a : ℕ) (s s' : Line) : Prop := s'.logLen = s.logLen ∧ Off a s.mem s'.mem

theorem strcpyLoop_off {curLen dst : ℕ} (h : Off a mem mem') :
    Off a (cfg.strcpyLoop curLen dst mem l).1 (cfg.strcpyLoop curLen dst mem' l).1 ∧
      (cfg.strcpyLoop curLen dst mem' l).2 = (cfg.strcpyLoop curLen dst mem l).2 := by
  induction l generalizing curLen dst mem mem' with
  | nil => exact ⟨h, rfl⟩
  | cons c l ih =>
    rw [strcpyLoop, strcpyLoop]
    split
    · obtain ⟨hmem, hn⟩ := @ih _ _ (curLen + 1) (dst + 1) (@Off.update _ a dst mem mem' c h)
      exact ⟨hmem, congrArg (· + 1) hn⟩
    · exact ⟨h, rfl⟩

theorem append_off (h : Lines a s s') (l : List Char) : ∃ t t', cfg.append logBuf (some l) s = some t ∧
    cfg.append logBuf (some l) s' = some t' ∧ Lines a t t' := by
  obtain ⟨hlen, hoff⟩ := h
  refine ⟨_, _, rfl, rfl, ?_⟩
  rw [hlen]
  obtain ⟨hmem, hn⟩ := @strcpyLoop_off cfg _ _ l a s.logLen (logBuf + s.logLen) hoff
  exact ⟨congrArg (s.logLen + ·) hn, hmem⟩

theorem appendAll_off (h : Lines a s s') (ls : List (List Char)) : ∃ t t', cfg.appendAll logBuf ls s = some t ∧
    cfg.appendAll logBuf ls s' = some t' ∧ Lines a t t' := by
  induction ls generalizing s s' with
  | nil => exact ⟨s, s', rfl, rfl, h⟩
  | cons l ls ih =>
    obtain ⟨t, t', ht, ht', hoff⟩ := @append_off cfg logBuf s s' a h l
    rw [appendAll, appendAll, ht, ht']
    exact ih hoff

theorem rtStrncpy_off {dst n : ℕ} (h : Off a mem mem') : Off a (rtStrncpy dst mem l n) (rtStrncpy dst mem' l n) := by
  induction n generalizing l dst mem mem' with
  | zero =>
    rw [rtStrncpy, rtStrncpy]
    exact h
  | succ n ih =>
    cases l with
    | nil => exact ih h.update
    | cons c l => exact ih h.update

/-- A copy without a bound that comes to the place. -/
theorem rtStrncpy_written {dst n k : ℕ} (h : Off a mem mem') (hk : k < n) (ha : address (dst + k) = a) :
    rtStrncpy dst mem' l n = rtStrncpy dst mem l n := by
  induction n generalizing l dst mem mem' k with
  | zero => exact absurd hk (Nat.not_lt_zero k)
  | succ n ih =>
    cases k with
    | zero =>
      rw [Nat.add_zero] at ha
      subst ha
      cases l with
      | nil => rw [rtStrncpy, rtStrncpy, h.written]
      | cons c l => rw [rtStrncpy, rtStrncpy, h.written]
    | succ k =>
      rw [Nat.add_comm k, ← Nat.add_assoc] at ha
      cases l with
      | nil => exact ih h.update (Nat.lt_of_succ_lt_succ hk) ha
      | cons c l => exact ih h.update (Nat.lt_of_succ_lt_succ hk) ha

theorem appendName_off (h : Lines a s s') (name : List Char) :
    Lines a (cfg.appendName logBuf name s) (cfg.appendName logBuf name s') := by
  obtain ⟨hlen, hoff⟩ := h
  unfold appendName
  rw [hlen]
  exact ⟨rfl, rtStrncpy_off hoff⟩

/-- **A thread name that does not fit** is written behind the buffer. -/
theorem appendName_written (h : Lines (logBuf + cfg.lineBufSize) s s') (hbuf : logBuf + cfg.lineBufSize < 2 ^ 32)
    (hname : name.length ≤ cfg.nameMax) (hle : s.logLen ≤ cfg.lineBufSize)
    (hlong : cfg.lineBufSize < s.logLen + name.length) :
    cfg.appendName logBuf name s' = cfg.appendName logBuf name s := by
  obtain ⟨hlen, hoff⟩ := h
  have haddr : address (logBuf + s.logLen + (cfg.lineBufSize - s.logLen)) = logBuf + cfg.lineBufSize := by
    unfold address
    omega
  have hmem : rtStrncpy (logBuf + s.logLen) s'.mem name name.length =
      rtStrncpy (logBuf + s.logLen) s.mem name name.length := rtStrncpy_written hoff (by omega) haddr
  unfold appendName
  rw [hlen, Nat.min_eq_left hname]
  simp only [hmem]

/-- **A message that goes round the address space** is written to its first place. -/
theorem message_written (h : Lines 0 s s') (hpos : 0 < logBuf) (hbuf : logBuf + cfg.lineBufSize < 2 ^ 32)
    (hle : s.logLen ≤ cfg.lineBufSize) (hout : output cfg.special fmt args = some message)
    (hlong : ¬if s.logLen < cfg.lineBufSize then logBuf + s.logLen + message.length < 2 ^ 32
      else logBuf + cfg.lineBufSize + message.length ≤ 2 ^ 32) :
    cfg.appendMessage logBuf fmt args s' = cfg.appendMessage logBuf fmt args s := by
  obtain ⟨hlen, hoff⟩ := h
  have hrun : rtVsnprintf cfg.special s'.mem (logBuf + s.logLen) (address (cfg.lineBufSize + 2 ^ 32 - s.logLen)) fmt args =
      rtVsnprintf cfg.special s.mem (logBuf + s.logLen) (address (cfg.lineBufSize + 2 ^ 32 - s.logLen)) fmt args := by
    by_cases hlt : s.logLen < cfg.lineBufSize
    · rw [if_pos hlt] at hlong
      have hsize : address (cfg.lineBufSize + 2 ^ 32 - s.logLen) = cfg.lineBufSize - s.logLen := by
        unfold address
        omega
      rw [hsize, rtVsnprintf_eq s.mem (by omega) (by omega) hout, rtVsnprintf_eq s'.mem (by omega) (by omega) hout]
      rcases Nat.lt_or_ge (2 ^ 32) (logBuf + s.logLen + message.length) with hround | hend
      · rw [hoff.foldl_written (i := 2 ^ 32 - (logBuf + s.logLen)) (by omega) (by omega) (by omega) (by omega)]
      · have hnul : nulAt (logBuf + s.logLen) (cfg.lineBufSize - s.logLen) message.length = 0 := by
          unfold nulAt address
          rw [show logBuf + s.logLen + message.length = 2 ^ 32 by omega, Nat.mod_self, if_pos (by omega)]
        rw [hnul, (Off.foldl_put hoff).written]
    · rw [if_neg hlt] at hlong
      have hsize : address (cfg.lineBufSize + 2 ^ 32 - s.logLen) = 0 := by
        unfold address
        omega
      rw [hsize, rtVsnprintf_zero s.mem (by omega) hout, rtVsnprintf_zero s'.mem (by omega) hout,
        hoff.foldl_written (i := 2 ^ 32 - (logBuf + s.logLen)) (by omega) (by omega) (by omega) (by omega)]
  unfold appendMessage
  rw [hlen, hrun]

theorem named_congr {t t' : Line} (h : cfg.append logBuf (some [':', ' ']) s = some t)
    (h' : cfg.append logBuf (some [':', ' ']) s' = some t')
    (hmessage : cfg.appendMessage logBuf fmt args t' = cfg.appendMessage logBuf fmt args t) :
    cfg.named logBuf level newline fmt args s' = cfg.named logBuf level newline fmt args s := by
  rw [named, named, h, h', Option.bind_eq_bind, Option.bind_some, Option.bind_some, hmessage]

/-- A formatter that leaves the outside alone cannot do the same on two memories that differ there. -/
theorem WellFormed.ne (h : cfg.WellFormed logBuf level tag name newline fmt args message)
    (ha : ¬(logBuf ≤ a ∧ a < logBuf + cfg.lineBufSize)) :
    cfg.ulogFormater (Function.update (fun _ => 'a') a 'b') logBuf level tag name newline fmt args ≠
      cfg.ulogFormater (fun _ => 'a') logBuf level tag name newline fmt args := by
  intro heq
  obtain ⟨mem₁, _, _, _, h₁, hframe₁, -⟩ := h (fun _ => 'a')
  obtain ⟨mem₂, _, _, _, h₂, hframe₂, -⟩ := h (Function.update (fun _ => 'a') a 'b')
  rw [heq, h₁] at h₂
  cases h₂
  have hboth := (hframe₁ a ha).symm.trans (hframe₂ a ha)
  rw [Function.update_self] at hboth
  exact absurd hboth (by decide)

theorem off_update (mem : ℕ → Char) (c : Char) : Off a mem (Function.update mem a c) :=
  fun _ hi => Function.update_of_ne hi c mem

theorem fits_of_wellFormed (hpos : 0 < logBuf) (hbuf : logBuf + cfg.lineBufSize < 2 ^ 32)
    (hname : name.length ≤ cfg.nameMax) (hout : output cfg.special fmt args = some message)
    (h : cfg.WellFormed logBuf level tag name newline fmt args message) :
    cfg.Fits logBuf level tag name message := by
  obtain ⟨-, -, info, -, -, -, -, hinfo, -⟩ := h (fun _ => 'a')
  obtain ⟨s₁, h₁, hs₁⟩ := appendAll_holds (@holds_nil cfg logBuf fun _ => 'a') (cfg.headerSources level info tag)
  rw [List.nil_append, headerSources_flatten] at hs₁
  have hlen₁ := hs₁.len
  have hfit : name = [] ∨ (cfg.start level info tag).length + name.length ≤ cfg.lineBufSize := by
    by_contra hlong
    rw [not_or, not_le] at hlong
    have hpos := List.length_pos_iff.2 hlong.1
    obtain ⟨t, t', ht, ht', hoff⟩ := @appendAll_off cfg logBuf ⟨fun _ => 'a', 0⟩
      ⟨Function.update (fun _ => 'a') (logBuf + cfg.lineBufSize) 'b', 0⟩ (logBuf + cfg.lineBufSize)
      ⟨rfl, off_update _ 'b'⟩ (cfg.headerSources level info tag)
    rw [h₁] at ht
    cases ht
    refine h.ne (fun hin => absurd hin.2 (lt_irrefl _)) ?_
    rw [ulogFormater_eq hinfo, ulogFormater_eq hinfo, h₁, ht', Option.bind_some, Option.bind_some,
      appendName_written hoff hbuf hname (by omega) (by omega)]
  refine ⟨info, hinfo, hfit, ?_⟩
  have hs₂ := appendName_holds hs₁ hbuf hname hfit
  obtain ⟨s₃, h₃, hs₃⟩ := append_holds hs₂ [':', ' ']
  have hlen : (cfg.start level info tag ++ name ++ [':', ' ']).length =
      (cfg.start level info tag).length + name.length + 2 := by
    rw [List.length_append, List.length_append]
    rfl
  have hlen₃ := hs₃.len
  rw [hlen] at hlen₃
  by_contra hround
  obtain ⟨t, t', ht, ht', hoff⟩ := @appendAll_off cfg logBuf ⟨fun _ => 'a', 0⟩ ⟨Function.update (fun _ => 'a') 0 'b', 0⟩ 0
    ⟨rfl, off_update _ 'b'⟩ (cfg.headerSources level info tag)
  rw [h₁] at ht
  cases ht
  obtain ⟨u, u', hu, hu', hoff'⟩ := @append_off cfg logBuf _ _ 0 (appendName_off hoff name) [':', ' ']
  rw [h₃] at hu
  cases hu
  refine h.ne (a := 0) (fun hin => absurd hin.1 (by omega)) ?_
  rw [ulogFormater_eq hinfo, ulogFormater_eq hinfo, h₁, ht', Option.bind_some, Option.bind_some]
  refine named_congr h₃ hu' (message_written hoff' hpos hbuf (by omega) hout ?_)
  split at hround
  · rw [if_pos (by omega)]
    omega
  · rw [if_neg (by omega)]
    omega

/-- **When a log line fits and is well formed.** The buffer lies in the address space, and the format has its
arguments. -/
theorem formater_wellFormed_iff (cfg : Config) {logBuf : ℕ} (level : Level) (tag name : List Char) (newline : Bool)
    {fmt : List Char} {args : List Arg} {message : List Char} (hpos : 0 < logBuf)
    (hbuf : logBuf + cfg.lineBufSize < 2 ^ 32) (hname : name.length ≤ cfg.nameMax)
    (hout : output cfg.special fmt args = some message) :
    cfg.WellFormed logBuf level tag name newline fmt args message ↔ cfg.Fits logBuf level tag name message :=
  ⟨fits_of_wellFormed hpos hbuf hname hout, wellFormed_of_fits hpos hbuf hname hout⟩

/-! ## Examples -/

/-- The message `a` of the thread `main`, under a short tag. -/
theorem formater_short : default.WellFormed 16 6 ['m'] ['m', 'a', 'i', 'n'] true ['a'] [] ['a'] :=
  (formater_wellFormed_iff default 6 ['m'] ['m', 'a', 'i', 'n'] true (by decide) (by decide) (by decide)
    (by simp [output, formatLoop])).2 ⟨['I', '/'], rfl, .inr (by decide), by decide⟩

/-- **A tag of 118 characters**: two characters of the thread name lie behind the buffer. -/
theorem formater_outside :
    ¬default.WellFormed 16 6 (List.replicate 118 't') ['m', 'a', 'i', 'n'] true ['a'] [] ['a'] := by
  intro h
  obtain ⟨info, hinfo, hname, -⟩ := fits_of_wellFormed (by decide) (by decide) (by decide)
    (by simp [output, formatLoop]) h
  cases hinfo
  have hlen : (default.start 6 ['I', '/'] (List.replicate 118 't')).length = 126 := by
    simp [start, default, defaultColor, csiStart]
  rcases hname with hnil | hle
  · cases hnil
  · rw [hlen] at hle
    exact absurd hle (by decide)

end RtThread.Ulog.Config
