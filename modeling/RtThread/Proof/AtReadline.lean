import RtThread.Spec.AtReadline

/-!
# Lines of an AT client

* `Reader.At.put`: the loop keeps as much of the line as fits, and sees only its last two bytes.
* `readline_segments`: **the call number `n` takes the segment number `n`**, of every stream.
-/

namespace RtThread.AtReadline

open AtClient Segments

variable {cfg : Config} {line seg stream rest : List Byte} {ch : Byte}

/-- The variables behind the bytes of a line. -/
structure Reader.At (r : Reader cfg) (line : List Byte) : Prop where
  buffer : r.client.recvBuffer = line.take cfg.recvBufsz ++ List.replicate (cfg.recvBufsz - line.length) 0
  readLen : r.readLen = min line.length cfg.recvBufsz
  curRecvLen : r.client.curRecvLen = r.readLen
  lastCh : r.lastCh = line.getLastD 0
  isFull : r.isFull = decide (cfg.recvBufsz < line.length)

theorem at_start (cfg : Config) : Reader.At ⟨cleared cfg, 0, 0, false⟩ [] :=
  ⟨by simp [cleared], by simp, rfl, rfl, by simp⟩

/-- **A byte more.** The last byte is set behind the tests. -/
theorem Reader.At.put {r : Reader cfg} (h : r.At line) (ch : Byte) :
    ∃ r', r.put ch = some r' ∧ r'.lastCh = r.lastCh ∧ Reader.At { r' with lastCh := ch } (line ++ [ch]) := by
  have hlast : ch = (line ++ [ch]).getLastD 0 := by simp
  have hlen : (line ++ [ch]).length = line.length + 1 := by simp
  by_cases hroom : line.length < cfg.recvBufsz
  · have hread : r.readLen = line.length := by rw [h.readLen]; exact Nat.min_eq_left (Nat.le_of_lt hroom)
    have hin : r.readLen < r.client.recvBuffer.length := by rw [r.client.size, hread]; exact hroom
    have hset : r.client.recvBuffer.set r.readLen ch =
        (line ++ [ch]).take cfg.recvBufsz ++ List.replicate (cfg.recvBufsz - (line ++ [ch]).length) 0 := by
      have hsucc : cfg.recvBufsz - line.length = cfg.recvBufsz - (line.length + 1) + 1 := by omega
      rw [h.buffer, hread, List.take_of_length_le (Nat.le_of_lt hroom), List.take_of_length_le (by omega),
        List.set_append_right _ _ (Nat.le_refl _), Nat.sub_self, hsucc, List.replicate_succ, hlen]
      simp
    refine ⟨⟨⟨r.client.recvBuffer.set r.readLen ch, List.length_set.trans r.client.size, r.readLen + 1⟩,
      r.readLen + 1, r.lastCh, r.isFull⟩, ?_, rfl, hset, ?_, rfl, hlast, ?_⟩
    · rw [Reader.put, if_pos (by omega), Client.store, if_pos hin]
      rfl
    · show r.readLen + 1 = _
      omega
    · show r.isFull = _
      rw [h.isFull, hlen]
      simp only [decide_eq_decide]
      omega
  · have hread : r.readLen = cfg.recvBufsz := by rw [h.readLen]; exact Nat.min_eq_right (Nat.le_of_not_lt hroom)
    refine ⟨{ r with isFull := true }, ?_, rfl, ?_, ?_, h.curRecvLen, hlast, ?_⟩
    · rw [Reader.put, if_neg (by omega)]
    · show r.client.recvBuffer = _
      rw [h.buffer, List.take_append_of_le_length (Nat.le_of_not_lt hroom), hlen, Nat.sub_eq_zero_of_le (by omega),
        Nat.sub_eq_zero_of_le (by omega)]
    · show r.readLen = _
      omega
    · show true = _
      rw [hlen]
      simp only [true_eq_decide_iff]
      omega

/-- Without a URC table and a sign, a line ends with CR LF. -/
theorem atEnd_iff {recvBufsz : ℕ} {r : Reader (plain recvBufsz)} (hlast : r.lastCh = line.getLastD 0) (ch : Byte) :
    r.atEnd ch = true ↔ crLf <:+ line ++ [ch] := by
  have hplain : r.atEnd ch = true ↔ ch = lf ∧ r.lastCh = cr := by
    simp [Reader.atEnd, endsLine, plain, getUrcObj]
  rw [hplain, hlast, crLf]
  cases line using List.reverseRecOn with
  | nil =>
    refine iff_of_false (by simp [cr]) fun h => ?_
    exact absurd h.length_le (by simp)
  | append_singleton init x =>
    rw [List.append_assoc, List.getLastD_concat]
    constructor
    · rintro ⟨rfl, rfl⟩
      exact List.suffix_append _ _
    · rintro ⟨t, ht⟩
      have htail : [cr, lf] = [x] ++ [ch] := List.append_inj_right' ht rfl
      cases htail
      exact ⟨rfl, rfl⟩

/-! ## The loop -/

variable {recvBufsz : ℕ}

/-- The line goes on. -/
theorem loop_more {r : Reader (plain recvBufsz)} (h : r.At line) (hmore : ¬crLf <:+ line ++ [ch]) :
    ∃ r' : Reader (plain recvBufsz), r'.At (line ++ [ch]) ∧ r.loop (ch :: stream) = r'.loop stream := by
  obtain ⟨r', hput, hlast, hat⟩ := h.put ch
  refine ⟨_, hat, ?_⟩
  have hend : ¬r'.atEnd ch = true := fun hend => hmore ((atEnd_iff (hlast.trans h.lastCh) ch).1 hend)
  rw [Reader.loop, hput]
  simp only [if_neg hend]

/-- The line ends. -/
theorem loop_end {r : Reader (plain recvBufsz)} (h : r.At line) (hend : crLf <:+ line ++ [ch]) :
    ∃ o, r.loop (ch :: rest) = some o ∧ Delivers (plain recvBufsz) (line ++ [ch]) rest o := by
  obtain ⟨r', hput, hlast, hat⟩ := h.put ch
  have hend : r'.atEnd ch = true := (atEnd_iff (hlast.trans h.lastCh) ch).2 hend
  have hfull : r'.isFull = decide ((plain recvBufsz).recvBufsz < (line ++ [ch]).length) := hat.isFull
  rw [Reader.loop, hput]
  simp only [if_pos hend]
  by_cases hfits : (line ++ [ch]).length ≤ (plain recvBufsz).recvBufsz
  · refine ⟨_, if_neg (by rw [hfull]; simpa using hfits), rfl, ?_⟩
    have hlen : r'.readLen = (line ++ [ch]).length := hat.readLen.trans (Nat.min_eq_left hfits)
    have hbuffer := hat.buffer
    rw [List.take_of_length_le hfits] at hbuffer
    rw [if_pos hfits]
    exact ⟨by rw [hlen], hat.curRecvLen.trans hlen, hbuffer⟩
  · refine ⟨_, if_pos (by rw [hfull]; simpa using hfits), rfl, ?_⟩
    rw [if_neg hfits]

/-- **A call takes a segment.** -/
theorem loop_segment {r : Reader (plain recvBufsz)} (h : r.At line) {tail : List Byte} (htail : tail ≠ [])
    (hseg : Segment crLf (line ++ tail)) :
    ∃ o, r.loop (tail ++ rest) = some o ∧ Delivers (plain recvBufsz) (line ++ tail) rest o := by
  induction tail generalizing line r with
  | nil => exact absurd rfl htail
  | cons ch tail ih =>
    have hsplit : line ++ ch :: tail = line ++ [ch] ++ tail := by simp
    by_cases hlast : tail = []
    · subst hlast
      exact loop_end h hseg.ends
    · have hmore : ¬crLf <:+ line ++ [ch] := by
        intro hend
        have hall := hseg.first _ (hsplit ▸ List.prefix_append _ _) hend
        rw [hsplit] at hall
        exact hlast (List.append_right_eq_self.1 hall.symm)
      obtain ⟨r', hat, hloop⟩ := loop_more h hmore
      rw [List.cons_append, hloop, hsplit]
      exact ih hat hlast (hsplit ▸ hseg)

/-- A call waits for the end of a line. -/
theorem loop_waits {r : Reader (plain recvBufsz)} (h : r.At line) (hrest : Unended crLf (line ++ rest)) :
    r.loop rest = some .waits := by
  induction rest generalizing line r with
  | nil => rfl
  | cons ch rest ih =>
    have hsplit : line ++ ch :: rest = line ++ [ch] ++ rest := by simp
    have hmore : ¬crLf <:+ line ++ [ch] := hrest _ (hsplit ▸ List.prefix_append _ _)
    obtain ⟨r', hat, hloop⟩ := loop_more h hmore
    rw [hloop]
    exact ih hat (hsplit ▸ hrest)

theorem readline_segment (recvBufsz : ℕ) (hseg : Segment crLf seg) (rest : List Byte) :
    ∃ o, atRecvReadline (plain recvBufsz) (seg ++ rest) = some o ∧ Delivers (plain recvBufsz) seg rest o :=
  loop_segment (at_start (plain recvBufsz)) (hseg.ne_nil (by simp [crLf])) hseg

theorem crLf_ne_nil : crLf ≠ [] := by simp [crLf]

/-- The calls one after the other. -/
theorem readline_nth {segs : List (List Byte)} (hsegs : ∀ seg ∈ segs, Segment crLf seg) (hrest : Unended crLf rest)
    (n : ℕ) :
    ∃ o, readline (plain recvBufsz) n (segs.flatten ++ rest) = some o ∧
      match segs[n]? with
      | some seg => Delivers (plain recvBufsz) seg ((segs.drop (n + 1)).flatten ++ rest) o
      | none => o = .waits := by
  induction n generalizing segs with
  | zero =>
    cases segs with
    | nil => exact ⟨_, loop_waits (at_start (plain recvBufsz)) hrest, rfl⟩
    | cons seg segs =>
      rw [List.flatten_cons, List.append_assoc]
      exact readline_segment _ (hsegs seg List.mem_cons_self) _
  | succ n ih =>
    cases segs with
    | nil =>
      have hwaits : atRecvReadline (plain recvBufsz) rest = some .waits := loop_waits (at_start (plain recvBufsz)) hrest
      refine ⟨.waits, ?_, rfl⟩
      rw [List.flatten_nil, List.nil_append, readline, hwaits]
    | cons seg segs =>
      obtain ⟨hseg, hsegs⟩ := List.forall_mem_cons.1 hsegs
      obtain ⟨o, ho, hdelivers⟩ := readline_segment recvBufsz hseg (segs.flatten ++ rest)
      cases o with
      | waits => exact hdelivers.elim
      | returns result client left =>
        obtain ⟨rfl, -⟩ := hdelivers
        rw [List.flatten_cons, List.append_assoc, readline, ho]
        exact ih hsegs

/-- A length is its `int`, below 2³¹. -/
theorem toInt_small {n : ℕ} (h : n < 2 ^ 31) : toInt n = n := by
  unfold toInt
  rw [BitVec.toInt_eq_toNat_of_lt (by rw [BitVec.toNat_ofNat]; omega), BitVec.toNat_ofNat, Nat.mod_eq_of_lt (by omega)]

/-- **Lines are split at CR LF**: a stream is segments one behind the other and something without a CR LF, in one way
that does not depend on the buffer; the call number `n` takes the segment number `n`, and returns it if it fits, and a
call that finds no segment waits. No call writes outside of the buffer. As an `int`, a length below 2³¹ is itself. -/
theorem readline_segments (stream : List Byte) :
    (∃ (segs : List (List Byte)) (rest : List Byte), stream = segs.flatten ++ rest ∧
      (∀ seg ∈ segs, Segment crLf seg) ∧ Unended crLf rest ∧
      ∀ recvBufsz n, ∃ o, readline (plain recvBufsz) n stream = some o ∧
        match segs[n]? with
        | some seg => Delivers (plain recvBufsz) seg ((segs.drop (n + 1)).flatten ++ rest) o
        | none => o = .waits) ∧
      ∀ n < 2 ^ 31, toInt n = n := by
  obtain ⟨segs, rest, rfl, hsegs, hrest⟩ := exists_segments crLf_ne_nil stream
  exact ⟨⟨segs, rest, rfl, hsegs, hrest, fun recvBufsz n => readline_nth hsegs hrest n⟩, fun n hn => toInt_small hn⟩

end RtThread.AtReadline
