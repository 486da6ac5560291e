import RtThread.Proof.Modbus
import Mathlib.Data.Nat.Bitwise

/-!
# What a valid frame is decoded to

The scan goes on behind the header of a frame, and whatever looks like a header there is decoded, too.

* `processBehind_nil`: the memory behind a short `CRC_BUFF` is all that the two models differ in.
* `processBehind_eq`: what a scan leaves of the data, and what it publishes.
* `frame_decoded_iff`, `temperature_signed_iff`: when a valid frame is decoded to its own registers.
-/

namespace RtThread.Modbus

variable {addr : Byte} {publish : Data → BitVec 16 → Published → Published} {pro : Snapshot} {behind : ℕ → List Byte}
  {junk : ℕ → BitVec 16} {out out' : Out} {i k n : ℕ}

/-! ## One frame -/

/-- The copied data: the bytes of the frame, and what was there behind them. -/
theorem copyData_eq (pro : Snapshot) (data : Data) (h10 : n ≤ 10) (h20 : i + 3 + n ≤ 20) :
    ∃ data', copyData pro i n data = some data' ∧
      ∀ k < 10, data'[k]? = if k < n then pro[i + 3 + k]? else data[k]? := by
  induction n with
  | zero => exact ⟨data, rfl, fun k _ => by rw [if_neg (Nat.not_lt_zero k)]⟩
  | succ n ih =>
    obtain ⟨data', hcopy, hdata'⟩ := ih (by omega) (by omega)
    have hb : pro[i + 3 + n]? = some pro[i + 3 + n] := Vector.getElem?_eq_getElem (by omega)
    refine ⟨data'.set n pro[i + 3 + n], ?_, fun k hk => ?_⟩
    · have hlt : n < 10 := by omega
      unfold copyData at hcopy ⊢
      rw [List.range_succ, List.foldlM_append, hcopy]
      simp [hb, hlt]
    · rw [Vector.getElem?_set, hdata' k hk]
      by_cases hkn : n = k
      · subst hkn
        simp [hb]
      · rw [if_neg hkn]
        by_cases hlt : k < n
        · rw [if_pos hlt, if_pos (by omega)]
        · rw [if_neg hlt, if_neg (by omega)]

/-- A frame whose data have room is taken. -/
theorem takeFrameBehind_eq {b : Byte} {l : List Byte} (data : Data) (hb : pro[i + 2]? = some b) (h10 : b.toNat ≤ 10)
    (h20 : i + 3 + b.toNat ≤ 20) (hl : 4 ≤ l.length) :
    ∃ data', takeFrameBehind l pro i data = some (data', b.setWidth 16) ∧
      ∀ k < 10, data'[k]? = if k < b.toNat then pro[i + 3 + k]? else data[k]? := by
  obtain ⟨data', hcopy, hdata'⟩ := copyData_eq pro data h10 h20
  obtain ⟨msg, hmsg⟩ := Option.isSome_iff_exists.1 ((crcBuff_isSome pro i b.toNat).2 h20)
  have hlen : msg.length = b.toNat + 3 := (mapM_length hmsg).trans List.length_range
  obtain ⟨crc, hcrc⟩ := Option.isSome_iff_exists.1 ((crcLoop_isSome 7 (msg ++ l) 0xFF 0xFF).2 (by
    rw [List.length_append]
    omega))
  refine ⟨data', ?_, hdata'⟩
  have hcrc' : crc16 (msg ++ l) 7#16 = some crc := hcrc
  simp [takeFrameBehind, hb, hcopy, hmsg, hcrc']

/-- A frame whose data have no room is not. -/
theorem takeFrameBehind_none {b : Byte} {l : List Byte} (data : Data) (hb : pro[i + 2]? = some b) (h10 : 10 < b.toNat) :
    takeFrameBehind l pro i data = none := by
  have hcopy : copyData pro i b.toNat data = none := by
    rw [← Option.not_isSome_iff_eq_none, copyData_isSome]
    intro h
    exact absurd (h 10 h10).1 (Nat.lt_irrefl 10)
  simp [takeFrameBehind, hb, hcopy]

/-- With nothing behind `CRC_BUFF`, this is the function that stops at a short one. -/
theorem processBehind_nil (addr : Byte) (publish : Data → BitVec 16 → Published → Published) (pro : Snapshot)
    (junk : ℕ → BitVec 16) (out : Out) :
    processBehind addr publish pro (fun _ => []) junk out = process addr publish pro junk out := by
  have hstep : processStepBehind addr publish pro (fun _ => []) junk = processStep addr publish pro junk := by
    funext out i
    simp only [processStepBehind, processStep, takeFrameBehind, takeFrame, List.append_nil]
  rw [processBehind, process, hstep]

/-- The data behind a header at `i` have room. -/
def Room (pro : Snapshot) (i : ℕ) : Prop := ∃ b ∈ pro[i + 2]?, b.toNat ≤ 10 ∧ i + 3 + b.toNat ≤ 20

/-! ## The scan -/

/-- A round stops the scan only at a header without room. -/
theorem processStepBehind_none {b : Byte} (hb : pro[i + 2]? = some b) (h10 : 10 < b.toNat)
    (hheader : HeaderAt addr pro i) :
    processStepBehind addr publish pro behind junk out i = none := by
  have hnone := takeFrameBehind_none (l := behind i) out.data hb h10
  simp [processStepBehind, matched_eq.2 hheader, hnone]

theorem processStepBehind_skip (publish : Data → BitVec 16 → Published → Published) (behind : ℕ → List Byte)
    (junk : ℕ → BitVec 16) (out : Out) (hi : i < 20) (hread : pro[i]? = some addr → i + 1 < 20) (hheader : ¬HeaderAt addr pro i) :
    processStepBehind addr publish pro behind junk out i = some out := by
  obtain ⟨m, hm⟩ := Option.isSome_iff_exists.1 ((matched_isSome addr pro hi).2 hread)
  cases m with
  | true => exact absurd (matched_eq.1 hm) hheader
  | false => simp [processStepBehind, hm]

theorem processStepBehind_take (publish : Data → BitVec 16 → Published → Published) (junk : ℕ → BitVec 16) (out : Out)
    (hheader : HeaderAt addr pro i) (hroom : Room pro i) (hl : 4 ≤ (behind i).length) :
    ∃ data' p', processStepBehind addr publish pro behind junk out i =
        some ⟨data', p', publish data' (junk i) out.published⟩ ∧
      ∀ k < 10, (Covers addr pro k i → data'[k]? = pro[i + 3 + k]?) ∧
        (¬Covers addr pro k i → data'[k]? = out.data[k]?) := by
  obtain ⟨b, hb, h10, h20⟩ := hroom
  obtain ⟨data', htake, hdata'⟩ := takeFrameBehind_eq (l := behind i) out.data hb h10 h20 hl
  refine ⟨data', b.setWidth 16, by simp [processStepBehind, matched_eq.2 hheader, htake], fun k hk => ⟨?_, ?_⟩⟩
  · rintro ⟨-, b', hb', hlt⟩
    obtain rfl : b = b' := Option.some.inj (hb.symm.trans hb')
    rw [hdata' k hk, if_pos hlt]
  · intro hnot
    rw [hdata' k hk, if_neg fun hlt => hnot ⟨hheader, b, hb, hlt⟩]

theorem lt_twenty : 19 < 20 := by decide

/-- What the rounds so far have left. -/
theorem rounds_leave (publish : Data → BitVec 16 → Published → Published) (junk : ℕ → BitVec 16)
    (hlast : getElem pro 19 lt_twenty ≠ addr) (hroom : ∀ i < 20, HeaderAt addr pro i → Room pro i)
    (hbehind : ∀ i, 4 ≤ (behind i).length) (out : Out) {m : ℕ} (hm : m ≤ 20) : ∃ out',
      (List.range m).foldlM (processStepBehind addr publish pro behind junk) out = some out' ∧
      (∀ k < 10, ∀ i < m, Covers addr pro k i → (∀ i' < m, i < i' → ¬Covers addr pro k i') →
        out'.data[k]? = pro[i + 3 + k]?) ∧
      ((∃ i < m, HeaderAt addr pro i) → ∃ j v, out'.published = publish out'.data (junk j) v) := by
  induction m with
  | zero => exact ⟨out, rfl, fun k _ i hi => absurd hi (Nat.not_lt_zero i), fun ⟨i, hi, _⟩ => absurd hi (Nat.not_lt_zero i)⟩
  | succ m ih =>
    obtain ⟨out₁, hrun, hdata, hpub⟩ := ih (by omega)
    by_cases hheader : HeaderAt addr pro m
    · obtain ⟨data', p', hstep, hcopy⟩ := processStepBehind_take publish junk out₁
        hheader (hroom m (by omega) hheader) (hbehind m)
      refine ⟨⟨data', p', publish data' (junk m) out₁.published⟩, ?_, fun k hk i hi hcov hrest => ?_,
        fun _ => ⟨m, _, rfl⟩⟩
      · rw [List.range_succ, List.foldlM_append, hrun]
        simp [hstep]
      · rcases Nat.lt_succ_iff_lt_or_eq.1 hi with hi | rfl
        · rw [(hcopy k hk).2 (hrest m (by omega) hi)]
          exact hdata k hk i hi hcov fun i' hi' hlt => hrest i' (by omega) hlt
        · exact (hcopy k hk).1 hcov
    · have hread : pro[m]? = some addr → m + 1 < 20 := by
        intro h
        by_contra hend
        obtain rfl : m = 19 := by omega
        exact hlast (Option.some.inj h)
      have hstep := processStepBehind_skip publish behind junk out₁ (by omega : m < 20) hread hheader
      refine ⟨out₁, ?_, fun k hk i hi hcov hrest => ?_, fun ⟨i, hi, h⟩ => ?_⟩
      · rw [List.range_succ, List.foldlM_append, hrun]
        simp [hstep]
      · rcases Nat.lt_succ_iff_lt_or_eq.1 hi with hi | rfl
        · exact hdata k hk i hi hcov fun i' hi' hlt => hrest i' (by omega) hlt
        · exact absurd hcov.1 hheader
      · rcases Nat.lt_succ_iff_lt_or_eq.1 hi with hi | rfl
        · exact hpub ⟨i, hi, h⟩
        · exact absurd h hheader

/-- Every round of a loop that ends has gone through. -/
theorem foldlM_round {α β : Type*} {f : β → α → Option β} {l : List α} {b r : β} (h : l.foldlM f b = some r) :
    ∀ a ∈ l, ∃ b', f b' a ≠ none := by
  induction l generalizing b with
  | nil => exact fun a ha => absurd ha List.not_mem_nil
  | cons a l ih =>
    rw [List.foldlM_cons] at h
    obtain ⟨b₁, hb₁, hrest⟩ := Option.bind_eq_some_iff.1 h
    refine List.forall_mem_cons.2 ⟨⟨b, ?_⟩, ih hrest⟩
    rw [hb₁]
    nofun

/-- A scan that ends has met no header whose data have no room. -/
theorem count_le (hout : processBehind addr publish pro behind junk out = some out') (hi : i < 20)
    (hheader : HeaderAt addr pro i) : ∀ n ∈ pro[i + 2]?, n.toNat ≤ 10 := by
  intro b hb
  by_contra h10
  obtain ⟨out₁, hout₁⟩ := foldlM_round hout i (List.mem_range.2 hi)
  exact hout₁ (processStepBehind_none hb (Nat.not_le.1 h10) hheader)

/-- There is a last header with the byte `k` behind it, if there is one. -/
theorem exists_last (hcov : Covers addr pro k 0) :
    ∃ i < 20, Covers addr pro k i ∧ ∀ i' < 20, i < i' → ¬Covers addr pro k i' := by
  classical
  refine ⟨Nat.findGreatest (Covers addr pro k) 19, Nat.lt_succ_of_le (Nat.findGreatest_le 19),
    Nat.findGreatest_spec (Nat.zero_le 19) hcov, fun i' hi' hlt => ?_⟩
  exact Nat.findGreatest_is_greatest hlt (Nat.le_of_lt_succ hi')

/-- The address is not the last byte, and every header is near the start of the snapshot. -/
structure Short (addr : Byte) (pro : Snapshot) : Prop where
  last : getElem pro 19 lt_twenty ≠ addr
  near : ∀ i < 20, HeaderAt addr pro i → i ≤ 7

theorem Short.room (h : Short addr pro) (hcount : ∀ i < 20, HeaderAt addr pro i → ∀ n ∈ pro[i + 2]?, n.toNat ≤ 10) :
    ∀ i < 20, HeaderAt addr pro i → Room pro i := by
  intro i hi hheader
  have hnear := h.near i hi hheader
  have hb : pro[i + 2]? = some pro[i + 2] := Vector.getElem?_eq_getElem (by omega)
  have hle := hcount i hi hheader _ hb
  exact ⟨_, hb, hle, by omega⟩

/-- **What a scan publishes**: it ends where every header has room, and then the last headers that reach them have
given the bytes of the data. -/
theorem processBehind_eq (publish : Data → BitVec 16 → Published → Published) (junk : ℕ → BitVec 16)
    (hshort : Short addr pro) (hcov : Covers addr pro k 0)
    (hcount : ∀ i < 20, HeaderAt addr pro i → ∀ n ∈ pro[i + 2]?, n.toNat ≤ 10)
    (hbehind : ∀ i, 4 ≤ (behind i).length) (out : Out) : ∃ out',
      processBehind addr publish pro behind junk out = some out' ∧
      (∀ k < 10, ∀ b, LastAt addr pro k b → out'.data[k]? = some b) ∧
      ∃ j v, out'.published = publish out'.data (junk j) v := by
  obtain ⟨out', hrun, hdata, hpub⟩ := rounds_leave publish junk hshort.last
    (hshort.room hcount) hbehind out (Nat.le_refl 20)
  refine ⟨out', hrun, ?_, hpub ⟨0, by decide, hcov.1⟩⟩
  rintro k hk b ⟨i, hi, hcov, hb, hrest⟩
  rw [hdata k hk i hi hcov hrest, hb]

/-- **When a scan leaves good values**: what is good depends on two bytes of the data, and an uninitialized variable
can spoil what is not. -/
theorem leaves_iff (d : Device) (hshort : Short d.addr pro) (hk : k + 1 < 10) (hcov : Covers d.addr pro (k + 1) 0)
    {good : Published → Prop} {goodWord : ℕ → Prop}
    (hgood : ∀ (data : Data) (high low : Byte), data[k]? = some high → data[k + 1]? = some low →
      goodWord (256 * high.toNat + low.toNat) → ∀ j v, good (d.publish data j v))
    (hbad : ∀ high low : Byte, ¬goodWord (256 * high.toNat + low.toNat) → ∃ j, ∀ (data : Data),
      data[k]? = some high → data[k + 1]? = some low → ∀ v, ¬good (d.publish data j v)) :
    Leaves d pro good ↔ KeepsWord d.addr pro k goodWord := by
  have hcov₀ : Covers d.addr pro k 0 := by
    obtain ⟨hheader, n, hn, hlt⟩ := hcov
    exact ⟨hheader, n, hn, by omega⟩
  constructor
  · intro h
    have hbehind : ∀ i : ℕ, 4 ≤ ((fun _ => List.replicate 4 0 : ℕ → List Byte) i).length := fun _ => Nat.le_refl 4
    have hout : ∀ j, ∃ out', processBehind d.addr d.publish pro (fun _ => List.replicate 4 0) (fun _ => j)
        ⟨Vector.replicate 10 0, 0, ⟨0, 0, 0, 0, 0, 0, 0⟩⟩ = some out' ∧ good out'.published :=
      fun j => h _ _ _ hbehind
    have hcount : ∀ i < 20, HeaderAt d.addr pro i → ∀ n ∈ pro[i + 2]?, n.toNat ≤ 10 := by
      intro i hi hheader
      obtain ⟨out', hout', -⟩ := hout 0
      exact count_le hout' hi hheader
    have hlast : ∀ k', Covers d.addr pro k' 0 → k' < 10 → ∃ b, LastAt d.addr pro k' b := by
      intro k' hcov' hk'
      obtain ⟨i, hi, hcovi, hrest⟩ := exists_last hcov'
      have hnear := hshort.near i hi hcovi.1
      exact ⟨pro[i + 3 + k'], i, hi, hcovi, Vector.getElem?_eq_getElem (by omega), hrest⟩
    obtain ⟨high, hhigh⟩ := hlast k hcov₀ (by omega)
    obtain ⟨low, hlow⟩ := hlast (k + 1) hcov hk
    refine ⟨hcount, high, low, hhigh, hlow, ?_⟩
    by_contra hword
    obtain ⟨j, hj⟩ := hbad high low hword
    obtain ⟨out', hout', hgood'⟩ := hout j
    obtain ⟨out₁, hrun, hdata, j', v, hpub⟩ := processBehind_eq d.publish (fun _ => j) hshort hcov
      hcount hbehind ⟨Vector.replicate 10 0, 0, ⟨0, 0, 0, 0, 0, 0, 0⟩⟩
    obtain rfl : out' = out₁ := Option.some.inj (hout'.symm.trans hrun)
    rw [hpub] at hgood'
    exact hj _ (hdata k (by omega) high hhigh) (hdata (k + 1) hk low hlow) v hgood'
  · rintro ⟨hcount, high, low, hhigh, hlow, hword⟩ behind junk out hbehind
    obtain ⟨out', hrun, hdata, j, v, hpub⟩ := processBehind_eq d.publish junk hshort hcov hcount
      hbehind out
    refine ⟨out', hrun, ?_⟩
    rw [hpub]
    exact hgood out'.data high low (hdata k (by omega) high hhigh) (hdata (k + 1) hk low hlow) hword _ _

/-! ## Valid frames -/

/-- The word that two bytes of the data make. -/
theorem word_toNat {data : Data} {high low : Byte} {a b : Fin 10} (ha : data[a.val]? = some high)
    (hb : data[b.val]? = some low) : (word data a b).toNat = 256 * high.toNat + low.toNat := by
  have hhigh : data[a] = high := by
    have h : data[a.val]? = some data[a] := Vector.getElem?_eq_getElem a.isLt
    exact Option.some.inj (h.symm.trans ha)
  have hlow : data[b] = low := by
    have h : data[b.val]? = some data[b] := Vector.getElem?_eq_getElem b.isLt
    exact Option.some.inj (h.symm.trans hb)
  rw [word, hhigh, hlow]
  have h1 := high.isLt
  have h2 := low.isLt
  have hshift : (high.toNat % 2 ^ 16) <<< 8 % 2 ^ 16 = high.toNat <<< 8 := by
    rw [Nat.mod_eq_of_lt (by omega : high.toNat < 2 ^ 16), Nat.shiftLeft_eq, Nat.mod_eq_of_lt (by omega)]
  rw [BitVec.toNat_or, BitVec.toNat_shiftLeft, BitVec.toNat_setWidth, BitVec.toNat_setWidth, hshift,
    Nat.mod_eq_of_lt (by omega : low.toNat < 2 ^ 16), ← Nat.shiftLeft_add_eq_or_of_lt h2, Nat.shiftLeft_eq]
  omega

/-- Behind a frame with at most four bytes of data there are zeros. -/
theorem snapshot_short {addr : Byte} {data : List Byte} (h0 : addr ≠ 0) (hlen : data.length ≤ 4) :
    Short addr (snapshot (response addr data)) := by
  have hzero : ∀ i, 9 ≤ i → i < 20 → (snapshot (response addr data))[i]? = some 0 := by
    intro i hi hlt
    have hframe : (response addr data).length ≤ i := by
      simp only [response, List.length_append, List.length_cons, List.length_nil]
      omega
    simp [snapshot, hlt, List.getElem?_eq_none hframe]
  constructor
  · have h19 := hzero 19 (by decide) (by decide)
    rw [Vector.getElem?_eq_getElem (by decide)] at h19
    rw [Option.some.inj h19]
    exact h0.symm
  · intro i hi hheader
    by_contra hfar
    have hlt := headerAt_lt hheader
    have hfun := hzero (i + 1) (by omega) hlt
    rw [hheader.2] at hfun
    exact absurd (Option.some.inj hfun) (by decide)

/-- The frame's own header. -/
theorem snapshot_covers {addr : Byte} {data : List Byte} {k : ℕ} (hk : k < data.length) (hlen : data.length ≤ 4) :
    Covers addr (snapshot (response addr data)) k 0 := by
  refine ⟨⟨by simp [snapshot, response], by simp [snapshot, response]⟩, BitVec.ofNat 8 data.length,
    by simp [snapshot, response], ?_⟩
  rw [BitVec.toNat_ofNat, Nat.mod_eq_of_lt (by omega)]
  exact hk

/-- **When a valid frame is decoded to its own registers**, whatever its data and CRC are. -/
theorem frame_decoded_iff (d0 d1 d2 d3 : Byte) :
    (Leaves .direct (snapshot (response 1 [d0, d1, d2, d3])) (fun v => v.wind_direct.toNat = 256 * d2.toNat + d3.toNat) ↔
      KeepsWord 1 (snapshot (response 1 [d0, d1, d2, d3])) 2 fun w => w = 256 * d2.toNat + d3.toNat) ∧
    ((10 * (256 * d2.toNat + d3.toNat) < 2 ^ 16 →
        Leaves .speed (snapshot (response 2 [d0, d1, d2, d3]))
          fun v => v.wind_speed.toNat = 10 * (256 * d2.toNat + d3.toNat)) ↔
      (10 * (256 * d2.toNat + d3.toNat) < 2 ^ 16 →
        KeepsWord 2 (snapshot (response 2 [d0, d1, d2, d3])) 2
          fun w => w * 10 % 2 ^ 16 = 10 * (256 * d2.toNat + d3.toNat))) ∧
    (Leaves .pressure (snapshot (response 6 [d0, d1])) (fun v => v.pressure_1.toNat = 256 * d0.toNat + d1.toNat) ↔
      KeepsWord 6 (snapshot (response 6 [d0, d1])) 0 fun w => w = 256 * d0.toNat + d1.toNat) := by
  refine ⟨?_, imp_congr_right fun _ => ?_, ?_⟩
  · refine leaves_iff .direct (snapshot_short (by decide) (by simp)) (by decide)
      (snapshot_covers (by simp) (by simp)) (fun data high low hhigh hlow hword j v => ?_)
      fun high low hword => ⟨0, fun data hhigh hlow v => ?_⟩
    · exact (word_toNat (a := 2) (b := 3) hhigh hlow).trans hword
    · exact fun h => hword ((word_toNat (a := 2) (b := 3) hhigh hlow).symm.trans h)
  · have htimes : ∀ {data : Data} {high low : Byte}, data[2]? = some high → data[3]? = some low →
        (word data 2 3 * 10).toNat = (256 * high.toNat + low.toNat) * 10 % 2 ^ 16 := by
      intro data high low hhigh hlow
      rw [BitVec.toNat_mul, word_toNat (a := 2) (b := 3) hhigh hlow]
      rfl
    refine leaves_iff .speed (snapshot_short (by decide) (by simp)) (by decide)
      (snapshot_covers (by simp) (by simp)) (fun data high low hhigh hlow hword j v => ?_)
      fun high low hword => ⟨0, fun data hhigh hlow v => ?_⟩
    · exact (htimes hhigh hlow).trans hword
    · exact fun h => hword ((htimes hhigh hlow).symm.trans h)
  · refine leaves_iff .pressure (snapshot_short (by decide) (by simp)) (by decide)
      (snapshot_covers (by simp) (by simp)) (fun data high low hhigh hlow hword j v => ?_)
      fun high low hword => ⟨0, fun data hhigh hlow v => ?_⟩
    · exact (word_toNat (a := 0) (b := 1) hhigh hlow).trans hword
    · exact fun h => hword ((word_toNat (a := 0) (b := 1) hhigh hlow).symm.trans h)

/-- **A payload that looks like a header**: the direction 0x0405 behind the word 0x0103 is not what is left. -/
theorem frame_redecoded : ¬∀ d0 d1 d2 d3 : Byte, Leaves .direct (snapshot (response 1 [d0, d1, d2, d3]))
    fun v => v.wind_direct.toNat = 256 * d2.toNat + d3.toNat := by
  intro h
  obtain ⟨out', hout', hgood⟩ := h 1 3 4 5 (fun _ => [0, 0, 0, 0]) (fun _ => 0)
    ⟨Vector.replicate 10 0, 0, ⟨0, 0, 0, 0, 0, 0, 0⟩⟩ fun _ => Nat.le_refl 4
  have hbad : (processBehind 1 publishDirect (snapshot (response 1 [1, 3, 4, 5])) (fun _ => [0, 0, 0, 0]) (fun _ => 0)
      ⟨Vector.replicate 10 0, 0, ⟨0, 0, 0, 0, 0, 0, 0⟩⟩).any (fun out => out.published.wind_direct.toNat == 1029) =
        false := by
    set_option maxRecDepth 20000 in decide
  have hrun : processBehind 1 publishDirect (snapshot (response 1 [1, 3, 4, 5])) (fun _ => [0, 0, 0, 0]) (fun _ => 0)
      ⟨Vector.replicate 10 0, 0, ⟨0, 0, 0, 0, 0, 0, 0⟩⟩ = some out' := hout'
  rw [hrun] at hbad
  have hval : out'.published.wind_direct.toNat = 1029 := hgood
  simp [hval] at hbad

/-! ## Signed temperatures -/

/-- The test of `change`. -/
theorem sign_test (x : BitVec 16) : x &&& 0x8000 = 0 ↔ x.toNat < 2 ^ 15 := by
  have hmsb : x.msb = x.toNat.testBit 15 := rfl
  have hle := BitVec.msb_eq_decide x
  have hand : (x &&& 0x8000).toNat = (x.toNat.testBit 15).toNat * 2 ^ 15 := by
    rw [BitVec.toNat_and]
    exact Nat.and_two_pow _ 15
  rw [← BitVec.toNat_inj, hand, ← hmsb, hle]
  simp

/-- A value without sign, in tenths. -/
theorem change_pos {x : BitVec 16} (h : x.toNat < 2 ^ 15) (j : BitVec 16) :
    ((change j x).sdiv 10).toInt = (x.toNat : ℤ).tdiv 10 := by
  have hint : x.toInt = x.toNat := BitVec.toInt_eq_toNat_of_lt (by omega)
  rw [change, if_pos ((sign_test x).2 h), BitVec.toInt_sdiv_of_ne_or_ne _ _ (.inr (by decide)), hint]
  rfl

/-- A value with a sign is lost: what is left comes from the uninitialized variable. -/
theorem change_neg {x : BitVec 16} (h : 2 ^ 15 ≤ x.toNat) :
    ((change 0 x).sdiv 10).toInt = 0 ∧ ((change 0x7FFF x).sdiv 10).toInt = -3276 := by
  have hneg : ¬x &&& 0x8000 = 0 := fun h0 => absurd ((sign_test x).1 h0) (by omega)
  rw [change, change, if_neg hneg, if_neg hneg]
  decide

/-- **When a temperature is decoded with its sign**, from initialized values only. -/
theorem temperature_signed_iff (h0 h1 : Byte) (r : BitVec 16) :
    Leaves .temperature (snapshot (response 3 [h0, h1, (r >>> 8).setWidth 8, r.setWidth 8]))
        (fun v => v.temperature_1.toInt = r.toInt.tdiv 10) ↔
      KeepsWord 3 (snapshot (response 3 [h0, h1, (r >>> 8).setWidth 8, r.setWidth 8])) 2
        fun w => w < 2 ^ 15 ∧ (w : ℤ).tdiv 10 = r.toInt.tdiv 10 := by
  refine leaves_iff .temperature (snapshot_short (by decide) (by simp)) (by decide)
    (snapshot_covers (by simp) (by simp)) (fun data high low hhigh hlow hword j v => ?_) fun high low hword => ?_
  · have hw := word_toNat (a := 2) (b := 3) hhigh hlow
    rw [← hw] at hword
    exact (change_pos hword.1 j).trans hword.2
  · by_cases hsign : 256 * high.toNat + low.toNat < 2 ^ 15
    · refine ⟨0, fun data hhigh hlow v hgood => hword ⟨hsign, ?_⟩⟩
      have hw := word_toNat (a := 2) (b := 3) hhigh hlow
      rw [← hw] at hsign ⊢
      exact (change_pos hsign 0).symm.trans hgood
    · -- one of two values of the variable gives something else
      by_cases hzero : r.toInt.tdiv 10 = 0
      · refine ⟨0x7FFF, fun data hhigh hlow v hgood => ?_⟩
        have hw := word_toNat (a := 2) (b := 3) hhigh hlow
        have hval : ((change 0x7FFF (word data 2 3)).sdiv 10).toInt = r.toInt.tdiv 10 := hgood
        rw [(change_neg (by omega)).2, hzero] at hval
        cases hval
      · refine ⟨0, fun data hhigh hlow v hgood => hzero ?_⟩
        have hw := word_toNat (a := 2) (b := 3) hhigh hlow
        have hval : ((change 0 (word data 2 3)).sdiv 10).toInt = r.toInt.tdiv 10 := hgood
        rw [(change_neg (by omega)).1] at hval
        exact hval.symm

/-- **Five degrees below zero** are lost: with 0x7FFF in the variable, it is -3276 that is published. -/
theorem frost_lost : ¬∀ (h0 h1 : Byte) (r : BitVec 16),
    Leaves .temperature (snapshot (response 3 [h0, h1, (r >>> 8).setWidth 8, r.setWidth 8]))
      fun v => v.temperature_1.toInt = r.toInt.tdiv 10 := by
  intro h
  obtain ⟨out', hout', hgood⟩ := h 1 244 (-50) (fun _ => [0, 0, 0, 0]) (fun _ => 0x7FFF)
    ⟨Vector.replicate 10 0, 0, ⟨0, 0, 0, 0, 0, 0, 0⟩⟩ fun _ => Nat.le_refl 4
  have hbad : (processBehind 3 publishTemperature (snapshot (response 3 [1, 244, 0xFF, 0xCE])) (fun _ => [0, 0, 0, 0])
      (fun _ => 0x7FFF) ⟨Vector.replicate 10 0, 0, ⟨0, 0, 0, 0, 0, 0, 0⟩⟩).any
        (fun out => out.published.temperature_1.toInt == -5) = false := by
    set_option maxRecDepth 20000 in decide
  have hrun : processBehind 3 publishTemperature (snapshot (response 3 [1, 244, 0xFF, 0xCE])) (fun _ => [0, 0, 0, 0])
      (fun _ => 0x7FFF) ⟨Vector.replicate 10 0, 0, ⟨0, 0, 0, 0, 0, 0, 0⟩⟩ = some out' := hout'
  rw [hrun] at hbad
  have hval : out'.published.temperature_1.toInt = -5 := hgood
  simp [hval] at hbad

end RtThread.Modbus
