import RtThread.Spec.Modbus

/-!
# The CRC and the frames of the Modbus sensors

* `crc16_modbus`: **`CRC16` is the Modbus CRC**: the table-driven loop computes the bit-serial CRC, and a message
  with its CRC behind it has the CRC zero.
-/

namespace RtThread.Modbus

/-! ## The CRC -/

/-- The register as one word: `uchCRCHi` is its low byte. -/
def pack (uchCRCHi uchCRCLo : Byte) : BitVec 16 := uchCRCLo.setWidth 16 <<< 8 ||| uchCRCHi.setWidth 16

theorem pack_low (hi lo : Byte) : (pack hi lo).setWidth 8 = hi := by
  unfold pack
  ext i hi'
  simp

theorem pack_shift (hi lo : Byte) : pack hi lo >>> 8 = lo.setWidth 16 := by
  unfold pack
  apply BitVec.eq_of_getLsbD_eq
  intro i hi'
  have hbehind : ¬8 + i < 8 := by omega
  by_cases h : i < 8
  · have hlt : 8 + i < 16 := by omega
    simp [hbehind, hlt, hi']
  · simp [hi', BitVec.getLsbD_of_ge lo i (Nat.not_lt.1 h)]

theorem pack_xor (hi lo b : Byte) : pack hi lo ^^^ b.setWidth 16 = pack (b ^^^ hi) lo := by
  unfold pack
  apply BitVec.eq_of_getLsbD_eq
  intro i hi'
  by_cases h : i < 8
  · simp [h, hi', Bool.xor_comm]
  · simp [h, hi', BitVec.getLsbD_of_ge b i (by omega)]

/-- The tables hold eight shifts of each byte. -/
theorem table_eq (i : Fin 256) :
    Crc.shifts 0xA001 8 ((BitVec.ofFin (w := 8) i).setWidth 16) = pack auchCRCHi[i] auchCRCLo[i] := by
  have htables : (List.finRange 256).map (fun i => Crc.shifts 0xA001 8 ((BitVec.ofFin (w := 8) i).setWidth 16)) =
      auchCRCHi.toList.zipWith pack auchCRCLo.toList := by
    set_option maxRecDepth 20000 in decide
  have hentry := congrArg (·[i.val]?) htables
  simpa [List.getElem?_zipWith, List.getElem?_map, i.isLt] using hentry

/-- One round of `CRC16` takes in one byte. -/
theorem round_eq (hi lo b : Byte) :
    Crc.byte 0xA001 (pack hi lo) b =
      pack (lo ^^^ auchCRCHi[(hi ^^^ b).toFin]) auchCRCLo[(hi ^^^ b).toFin] := by
  rw [Crc.byte_eq, pack_low, pack_shift]
  have htable := table_eq (hi ^^^ b).toFin
  rw [BitVec.ofFin_toFin] at htable
  rw [htable, pack_xor]

theorem crcLoop_eq (n : ℕ) (msg rest : List Byte) (hn : msg.length = n) (hi lo : Byte) :
    crcLoop n (msg ++ rest) hi lo = some (Crc.run 0xA001 (pack hi lo) msg) := by
  induction msg generalizing n hi lo with
  | nil =>
    subst hn
    rfl
  | cons b msg ih =>
    subst hn
    rw [Crc.run, List.foldl_cons, round_eq]
    exact ih _ rfl _ _

theorem crc16_run (msg : List Byte) (h : msg.length ≤ 65535) :
    crc16 msg (BitVec.ofNat 16 msg.length) = some (modbusCrc msg) := by
  have hlen : (BitVec.ofNat 16 msg.length).toNat = msg.length := by
    rw [BitVec.toNat_ofNat]
    exact Nat.mod_eq_of_lt (by omega)
  have hloop := crcLoop_eq msg.length msg [] rfl 0xFF 0xFF
  rw [List.append_nil] at hloop
  rw [crc16, hlen]
  exact hloop

/-- A message with its CRC behind it leaves nothing over. -/
theorem modbusCrc_residue (msg : List Byte) :
    modbusCrc (msg ++ [crcLow (modbusCrc msg), crcHigh (modbusCrc msg)]) = 0 := by
  set crc := modbusCrc msg with hcrc
  have hlow : Crc.byte 0xA001 crc (crcLow crc) = crc >>> 8 := Crc.byte_self _ _
  have hhigh : Crc.byte 0xA001 (crc >>> 8) (crcHigh crc) = crc >>> 8 >>> 8 := Crc.byte_self _ _
  have hrun : modbusCrc (msg ++ [crcLow crc, crcHigh crc]) =
      Crc.byte 0xA001 (Crc.byte 0xA001 crc (crcLow crc)) (crcHigh crc) := by
    rw [modbusCrc, Crc.run, List.foldl_append, hcrc]
    rfl
  rw [hrun, hlow, hhigh, ← BitVec.shiftRight_add]
  exact BitVec.ushiftRight_eq_zero (le_refl 16)

/-- **`CRC16` is the Modbus CRC**: it is the bit-serial CRC with the polynomial 0xA001 and the initial value 0xFFFF;
and a message with the two bytes of its CRC behind it, the low one first, has the CRC zero where its length still
fits `usDataLen`. -/
theorem crc16_modbus (msg : List Byte) (h : msg.length ≤ 65535) :
    crc16 msg (BitVec.ofNat 16 msg.length) = some (modbusCrc msg) ∧
      (msg.length + 2 ≤ 65535 →
        crc16 (msg ++ [crcLow (modbusCrc msg), crcHigh (modbusCrc msg)])
          (BitVec.ofNat 16 (msg.length + 2)) = some 0) := by
  refine ⟨crc16_run msg h, fun h2 => ?_⟩
  have hrun := crc16_run (msg ++ [crcLow (modbusCrc msg), crcHigh (modbusCrc msg)])
    (by rwa [List.length_append])
  rw [modbusCrc_residue, List.length_append] at hrun
  exact hrun

/-- The check value of CRC-16/MODBUS, that of the digits from 1 to 9. -/
example : modbusCrc [0x31, 0x32, 0x33, 0x34, 0x35, 0x36, 0x37, 0x38, 0x39] = 0x4B37 := by
  set_option maxRecDepth 20000 in decide

/-- The request `01 03 00 00 00 02`, whose CRC is sent as `C4 0B`. -/
theorem crc16_modbus_request : crc16 [1, 3, 0, 0, 0, 2] 6 = some 0x0BC4 ∧
    crc16 [1, 3, 0, 0, 0, 2, 0xC4, 0x0B] 8 = some 0 := by
  obtain ⟨hcrc, hres⟩ := crc16_modbus [1, 3, 0, 0, 0, 2] (by decide)
  have hval : modbusCrc [1, 3, 0, 0, 0, 2] = 0x0BC4 := by
    set_option maxRecDepth 20000 in decide
  rw [hval] at hcrc hres
  exact ⟨hcrc, hres (by decide)⟩

/-- **A long message has no CRC zero**: with two bytes more, the length of 65534 zeros is zero again. -/
theorem crc16_long : ¬∀ msg : List Byte, msg.length ≤ 65535 →
    crc16 (msg ++ [crcLow (modbusCrc msg), crcHigh (modbusCrc msg)])
      (BitVec.ofNat 16 (msg.length + 2)) = some 0 := by
  intro h
  have hlen : (List.replicate 65534 (0 : Byte)).length = 65534 := List.length_replicate
  have h0 := h (List.replicate 65534 0) (by rw [hlen]; decide)
  rw [hlen] at h0
  have hwrap : BitVec.ofNat 16 (65534 + 2) = 0#16 := by decide
  rw [hwrap] at h0
  have hff : ∀ l, crc16 l 0#16 = some 0xFFFF := fun _ => rfl
  rw [hff] at h0
  exact absurd h0 (by decide)

/-! ## The frames -/

/-- A loop whose every round can fail only by itself. -/
theorem foldlM_isSome {α β : Type*} {f : β → α → Option β} {P : α → Prop} {l : List α}
    (hf : ∀ a ∈ l, ∀ b, (f b a).isSome ↔ P a) (b : β) : (l.foldlM f b).isSome ↔ ∀ a ∈ l, P a := by
  induction l generalizing b with
  | nil => simp
  | cons a l ih =>
    rw [List.foldlM_cons, List.forall_mem_cons, ← hf a List.mem_cons_self b]
    cases hb : f b a with
    | none => simp
    | some b' =>
      rw [Option.isSome_some, eq_self, true_and]
      exact ih (fun a ha => hf a (List.mem_cons_of_mem _ ha)) b'

theorem mapM_isSome {α β : Type*} {f : α → Option β} (l : List α) :
    (l.mapM f).isSome ↔ ∀ a ∈ l, (f a).isSome := by
  induction l with
  | nil => simp
  | cons a l ih =>
    rw [List.mapM_cons, List.forall_mem_cons, ← ih]
    cases f a <;> cases l.mapM f <;> simp

theorem mapM_length {α β : Type*} {f : α → Option β} {l : List α} {r : List β} (h : l.mapM f = some r) :
    r.length = l.length := by
  induction l generalizing r with
  | nil =>
    cases h
    rfl
  | cons a l ih =>
    rw [List.mapM_cons] at h
    obtain ⟨b, -, h⟩ := Option.bind_eq_some_iff.1 h
    obtain ⟨r', hr', h⟩ := Option.bind_eq_some_iff.1 h
    cases h
    rw [List.length_cons, List.length_cons, ih hr']

theorem crcLoop_isSome (n : ℕ) (msg : List Byte) (hi lo : Byte) : (crcLoop n msg hi lo).isSome ↔ n ≤ msg.length := by
  induction n generalizing msg hi lo with
  | zero => simp [crcLoop]
  | succ n ih =>
    cases msg with
    | nil => simp [crcLoop]
    | cons b msg =>
      rw [crcLoop, List.length_cons, Nat.add_le_add_iff_right]
      exact ih msg _ _

variable {pro : Snapshot} {addr : Byte} {publish : Data → BitVec 16 → Published → Published} {junk : ℕ → BitVec 16}
  {out : Out} {i : ℕ}

theorem getElem?_isSome : pro[i]?.isSome ↔ i < 20 := by
  simp

theorem copyData_isSome (pro : Snapshot) (i n : ℕ) (data : Data) :
    (copyData pro i n data).isSome ↔ ∀ j < n, j < 10 ∧ i + 3 + j < 20 := by
  have hround : ∀ (data : Data) (j : ℕ), (do
      let b ← pro[i + 3 + j]?
      if h : j < 10 then some (data.set j b h) else none : Option Data).isSome ↔ j < 10 ∧ i + 3 + j < 20 := by
    intro data j
    by_cases hj : j < 10 <;> by_cases hi : i + 3 + j < 20 <;> simp [hj, hi]
  rw [copyData, foldlM_isSome fun j _ data => hround data j]
  simp only [List.mem_range]

theorem crcBuff_isSome (pro : Snapshot) (i n : ℕ) : (crcBuff pro i n).isSome ↔ i + 3 + n ≤ 20 := by
  rw [crcBuff, mapM_isSome]
  simp only [List.mem_range, getElem?_isSome]
  constructor
  · intro h
    have hlast := h (n + 2) (by omega)
    omega
  · intro h j hj
    omega

theorem takeFrame_isSome (pro : Snapshot) (i : ℕ) (data : Data) : (takeFrame pro i data).isSome ↔ CountFits pro i := by
  unfold takeFrame CountFits
  cases pro[i + 2]? with
  | none => simp
  | some n =>
    have hcopy := copyData_isSome pro i n.toNat data
    have hbuff := crcBuff_isSome pro i n.toNat
    simp only [Option.bind_eq_bind, Option.bind_some, Option.mem_some_iff, exists_eq_left']
    cases hdata : copyData pro i n.toNat data with
    | none =>
      rw [hdata] at hcopy
      simp only [Option.bind_none, Option.isSome_none, Bool.false_eq_true, false_iff]
      intro hfit
      exact absurd (hcopy.2 fun j hj => by omega) nofun
    | some data' =>
      rw [hdata] at hcopy
      have hfit := hcopy.1 rfl
      cases hmsg : crcBuff pro i n.toNat with
      | none =>
        rw [hmsg] at hbuff
        simp only [Option.bind_some, Option.bind_none, Option.isSome_none, Bool.false_eq_true, false_iff]
        intro hfit
        exact absurd (hbuff.2 hfit.2.2) nofun
      | some msg =>
        rw [hmsg] at hbuff
        have hend := hbuff.1 rfl
        have hlen : msg.length = n.toNat + 3 := (mapM_length hmsg).trans List.length_range
        -- `CRC16` reads seven bytes
        have hcrc : (crc16 msg 7).isSome ↔ 7 ≤ msg.length := crcLoop_isSome 7 msg _ _
        have hten : n.toNat ≤ 10 := by
          by_contra hlong
          exact absurd (hfit 10 (by omega)).1 (by decide)
        cases hc : crc16 msg 7 with
        | none =>
          rw [hc, hlen] at hcrc
          simp only [Option.bind_some, hc, Option.bind_none, Option.isSome_none, Bool.false_eq_true, false_iff]
          intro hfit
          exact absurd (hcrc.2 (by omega)) nofun
        | some crc =>
          rw [hc, hlen] at hcrc
          have hfour := hcrc.1 rfl
          simp only [Option.bind_some, hc, Option.pure_def, Option.isSome_some, true_iff]
          exact ⟨by omega, hten, hend⟩

theorem matched_eq : matched addr pro i = some true ↔ HeaderAt addr pro i := by
  unfold matched HeaderAt
  cases pro[i]? with
  | none => simp
  | some b =>
    by_cases hb : b = addr
    · cases pro[i + 1]? <;> simp [hb]
    · simp [hb]

theorem matched_isSome (addr : Byte) (pro : Snapshot) {i : ℕ} (hi : i < 20) : (matched addr pro i).isSome ↔ (pro[i]? = some addr → i + 1 < 20) := by
  unfold matched
  rw [Vector.getElem?_eq_getElem hi]
  by_cases hb : pro[i] = addr
  · by_cases hi' : i + 1 < 20 <;> simp [hb, hi']
  · simp [hb]

/-- A round stays in bounds. -/
def RoundOk (addr : Byte) (pro : Snapshot) (i : ℕ) : Prop :=
  (pro[i]? = some addr → i + 1 < 20) ∧ (HeaderAt addr pro i → CountFits pro i)

theorem processStep_isSome (hi : i < 20) :
    (processStep addr publish pro junk out i).isSome ↔ RoundOk addr pro i := by
  have hread := matched_isSome addr pro hi
  have hframe := takeFrame_isSome pro i out.data
  unfold processStep RoundOk
  cases hm : matched addr pro i with
  | none =>
    rw [hm] at hread
    simp [← hread]
  | some m =>
    rw [hm] at hread
    rw [← hread, ← hframe, ← matched_eq, hm]
    cases m with
    | false => simp
    | true => cases takeFrame pro i out.data <;> simp

theorem headerAt_lt (h : HeaderAt addr pro i) : i + 1 < 20 := by
  by_contra hi
  exact absurd h.2 (by rw [Vector.getElem?_eq_none (Nat.not_lt.1 hi)]; nofun)

theorem rounds_ok : (∀ i ∈ List.range 20, RoundOk addr pro i) ↔
    pro[19] ≠ addr ∧ ∀ i, HeaderAt addr pro i → CountFits pro i := by
  constructor
  · intro h
    refine ⟨fun hlast => ?_, fun i hi => (h i (List.mem_range.2 (by have := headerAt_lt hi; omega))).2 hi⟩
    have hend := (h 19 (by decide)).1 (by rw [← hlast]; rfl)
    omega
  · rintro ⟨hlast, hfits⟩ i hi
    refine ⟨fun haddr => ?_, hfits i⟩
    have hlt := List.mem_range.1 hi
    by_contra hend
    obtain rfl : i = 19 := by omega
    exact hlast (Option.some.inj haddr)

/-- **Where a function stays in bounds**: the address is not the last byte, and behind every header there is a
byte count that fits. -/
theorem process_isSome :
    (process addr publish pro junk out).isSome ↔
      pro[19] ≠ addr ∧ ∀ i, HeaderAt addr pro i → CountFits pro i := by
  rw [process, ← rounds_ok]
  apply foldlM_isSome
  intro i hi out
  exact processStep_isSome (List.mem_range.1 hi)

/-- A round goes out of bounds, or finds nothing, or publishes data that the global variables have no part in. -/
theorem processStep_cases (addr : Byte) (publish : Data → BitVec 16 → Published → Published) (pro : Snapshot)
    (junk : ℕ → BitVec 16) (i : ℕ) (data : Data) :
    (∀ p v, processStep addr publish pro junk ⟨data, p, v⟩ i = none) ∨
      (¬HeaderAt addr pro i ∧ ∀ p v, processStep addr publish pro junk ⟨data, p, v⟩ i = some ⟨data, p, v⟩) ∨
      ∃ data' p', ∀ p v,
        processStep addr publish pro junk ⟨data, p, v⟩ i = some ⟨data', p', publish data' (junk i) v⟩ := by
  unfold processStep
  cases hm : matched addr pro i with
  | none => exact .inl fun _ _ => rfl
  | some m =>
    cases m with
    | false =>
      refine .inr (.inl ⟨fun h => ?_, fun _ _ => rfl⟩)
      rw [← matched_eq, hm] at h
      cases h
    | true =>
      cases hframe : takeFrame pro i data with
      | none => exact .inl fun _ _ => by simp [hframe]
      | some frame => exact .inr (.inr ⟨frame.1, frame.2, fun _ _ => by simp [hframe]⟩)

/-- What the rounds so far have done: gone out of bounds, or found nothing, or published something. -/
theorem rounds_cases {read : Published → BitVec 16} {f : Data → BitVec 16}
    (hread : ∀ data junk v, read (publish data junk v) = f data) (addr : Byte) (pro : Snapshot) (junk : ℕ → BitVec 16)
    (l : List ℕ) (data : Data) (p : BitVec 16) :
    (∀ v, l.foldlM (processStep addr publish pro junk) ⟨data, p, v⟩ = none) ∨ ∃ data' p',
      ((∀ i ∈ l, ¬HeaderAt addr pro i) ∧
        ∀ v, l.foldlM (processStep addr publish pro junk) ⟨data, p, v⟩ = some ⟨data', p', v⟩) ∨
      ∃ r, ∀ v, ∃ v', l.foldlM (processStep addr publish pro junk) ⟨data, p, v⟩ = some ⟨data', p', v'⟩ ∧
        read v' = r := by
  induction l using List.reverseRecOn with
  | nil => exact .inr ⟨data, p, .inl ⟨nofun, fun v => rfl⟩⟩
  | append_singleton l i ih =>
    simp only [List.foldlM_append, List.foldlM_cons, List.foldlM_nil, bind_pure]
    obtain hnone | ⟨data', p', hrun⟩ := ih
    · exact .inl fun v => by rw [hnone]; rfl
    obtain hout | ⟨hskip, hsame⟩ | ⟨data'', p'', hround⟩ := processStep_cases addr publish pro junk i data'
    · -- out of bounds in the last round
      left
      intro v
      obtain ⟨-, hall⟩ | ⟨r, hall⟩ := hrun
      · rw [hall]
        exact hout _ _
      · obtain ⟨v', hv', -⟩ := hall v
        rw [hv']
        exact hout _ _
    · -- nothing in the last round
      refine .inr ⟨data', p', ?_⟩
      obtain ⟨hnot, hall⟩ | ⟨r, hall⟩ := hrun
      · refine .inl ⟨fun j hj => ?_, fun v => by rw [hall]; exact hsame _ _⟩
        obtain hj | hj := List.mem_append.1 hj
        · exact hnot j hj
        · rwa [List.mem_singleton.1 hj]
      · refine .inr ⟨r, fun v => ?_⟩
        obtain ⟨v', hv', hr⟩ := hall v
        exact ⟨v', by rw [hv']; exact hsame _ _, hr⟩
    · -- a frame in the last round
      refine .inr ⟨data'', p'', .inr ⟨f data'', fun v => ?_⟩⟩
      obtain ⟨-, hall⟩ | ⟨r, hall⟩ := hrun
      · exact ⟨_, by rw [hall]; exact hround _ _, hread _ _ _⟩
      · obtain ⟨v', hv', -⟩ := hall v
        exact ⟨_, by rw [hv']; exact hround _ _, hread _ _ _⟩

/-- A loop whose every round changes nothing. -/
theorem foldlM_fixed {α β : Type*} {f : β → α → Option β} {l : List α} {b : β} (h : ∀ a ∈ l, f b a = some b) :
    l.foldlM f b = some b := by
  induction l with
  | nil => rfl
  | cons a l ih =>
    rw [List.foldlM_cons, h a List.mem_cons_self]
    exact ih fun a ha => h a (List.mem_cons_of_mem _ ha)

/-- Without a header nothing is published. -/
theorem process_idle (hlast : pro[19] ≠ addr) (hnot : ∀ i, ¬HeaderAt addr pro i) (out : Out) :
    process addr publish pro junk out = some out := by
  apply foldlM_fixed
  intro i hi
  have hok := rounds_ok.2 ⟨hlast, fun i h => absurd h (hnot i)⟩ i hi
  have hmatched := (matched_isSome addr pro (List.mem_range.1 hi)).2 hok.1
  unfold processStep
  cases hm : matched addr pro i with
  | none =>
    rw [hm] at hmatched
    cases hmatched
  | some m =>
    cases m with
    | false => rfl
    | true => exact absurd (matched_eq.1 hm) (hnot i)

/-- **A function that publishes nothing has found no header**, and not read behind the snapshot. -/
theorem process_publishes {read : Published → BitVec 16} {f : Data → BitVec 16} (hsurj : Function.Surjective read)
    (hread : ∀ data junk v, read (publish data junk v) = f data)
    (hkeeps : ∀ out, ∃ out', process addr publish pro junk out = some out' ∧ out'.published = out.published) :
    pro[19] ≠ addr ∧ ∀ i, ¬HeaderAt addr pro i := by
  let data : Data := Vector.replicate 10 0
  have hin : ∀ v, (process addr publish pro junk ⟨data, 0, v⟩).isSome := by
    intro v
    obtain ⟨out', hout', -⟩ := hkeeps ⟨data, 0, v⟩
    rw [hout']
    rfl
  obtain ⟨v₀, -⟩ := hsurj 0
  refine ⟨(process_isSome.1 (hin v₀)).1, fun i hi => ?_⟩
  obtain hnone | ⟨data', p', ⟨hnot, -⟩ | ⟨r, hpub⟩⟩ := rounds_cases hread addr pro junk (List.range 20) data 0
  · have h₀ := hin v₀
    rw [process, hnone] at h₀
    cases h₀
  · have hlt := headerAt_lt hi
    exact hnot i (List.mem_range.2 (by omega)) hi
  · -- the variable had another value before
    obtain ⟨v, hv⟩ := hsurj (r + 1)
    obtain ⟨v', hv', hr⟩ := hpub v
    obtain ⟨out', hout', hsame⟩ := hkeeps ⟨data, 0, v⟩
    rw [process, hv'] at hout'
    cases hout'
    have heq : r = r + 1 := by
      rw [← hv, ← hr]
      exact congrArg read hsame
    simp at heq

namespace Device

/-- Every sensor sets a variable to something that it had not been. -/
theorem overwrites (d : Device) : ∃ (publish : Data → BitVec 16 → Published → Published)
    (read : Published → BitVec 16) (f : Data → BitVec 16), d.process = Modbus.process d.addr publish ∧
      Function.Surjective read ∧ ∀ data junk v, read (publish data junk v) = f data := by
  cases d with
  | direct =>
    exact ⟨publishDirect, Published.wind_direct, fun data => word data 2 3, rfl,
      fun v => ⟨⟨0, 0, v, 0, 0, 0, 0⟩, rfl⟩, fun _ _ _ => rfl⟩
  | speed =>
    exact ⟨publishSpeed, Published.wind_speed, fun data => word data 2 3 * 10, rfl,
      fun v => ⟨⟨0, 0, 0, 0, v, 0, 0⟩, rfl⟩, fun _ _ _ => rfl⟩
  | temperature =>
    exact ⟨publishTemperature, Published.humidity_1, fun data => word data 0 1 / 10, rfl,
      fun v => ⟨⟨0, v, 0, 0, 0, 0, 0⟩, rfl⟩, fun _ _ _ => rfl⟩
  | humidity =>
    exact ⟨publishHumidity, Published.humidity_1, fun data => word data 2 3, rfl,
      fun v => ⟨⟨0, v, 0, 0, 0, 0, 0⟩, rfl⟩, fun _ _ _ => rfl⟩
  | pressure =>
    exact ⟨publishPressure, Published.pressure_1, fun data => word data 0 1, rfl,
      fun v => ⟨⟨0, 0, 0, 0, 0, 0, v⟩, rfl⟩, fun _ _ _ => rfl⟩

end Device

/-- **When only checked frames change measurements**: there is one, or there is no header at all, and none that
begins with the last byte. -/
theorem onlyChecked_iff (d : Device) (pro : Snapshot) :
    OnlyChecked d pro ↔ HasFrame d.addr pro ∨ pro[19] ≠ d.addr ∧ ∀ i, ¬HeaderAt d.addr pro i := by
  obtain ⟨publish, read, f, hprocess, hsurj, hread⟩ := d.overwrites
  constructor
  · intro h
    by_cases hframe : HasFrame d.addr pro
    · exact .inl hframe
    · have hkeeps : ∀ out, ∃ out', process d.addr publish pro 0 out = some out' ∧ out'.published = out.published := by
        intro out
        rw [← hprocess]
        exact (h 0 out).resolve_left hframe
      exact .inr (process_publishes hsurj hread hkeeps)
  · rintro (hframe | ⟨hlast, hnot⟩) junk out
    · exact .inl hframe
    · rw [hprocess]
      exact .inr ⟨out, process_idle hlast hnot out, rfl⟩

/-- An answer of the wind vane with a wrong CRC. -/
def damaged : Snapshot := #v[1, 3, 4, 0, 0, 0, 90, 0, 0, 0, 0, 0, 0, 0, 0, 0, 0, 0, 0, 0]

/-- The CRC of the damaged answer does not follow it. -/
theorem damaged_noFrame : ¬HasFrame 1 damaged := by
  rintro ⟨i, hlt, haddr, -, n, hn, msg, hmsg, crc, hcrc, hlow, -⟩
  have hi : ∀ i < 20, damaged[i]? = some 1 → i = 0 := by decide
  obtain rfl := hi i hlt haddr
  have h4 : damaged[0 + 2]? = some 4 := rfl
  rw [h4] at hn
  obtain rfl := Option.some.inj hn
  have hbuff : crcBuff damaged 0 (BitVec.toNat (4 : Byte)) = some [1, 3, 4, 0, 0, 0, 90] := rfl
  rw [hbuff] at hmsg
  obtain rfl := Option.some.inj hmsg
  rw [crc16_run _ (by decide)] at hcrc
  obtain rfl := Option.some.inj hcrc
  have hval : crcLow (modbusCrc [1, 3, 4, 0, 0, 0, 90]) ≠ 0 := by
    set_option maxRecDepth 20000 in decide
  exact hval (Option.some.inj hlow).symm
/-- **A damaged frame is published.** -/
theorem damaged_published : ¬∀ d pro, OnlyChecked d pro := by
  intro h
  obtain hframe | ⟨out, hout, hsame⟩ := h .direct damaged 0 ⟨Vector.replicate 10 0, 0, ⟨0, 0, 0, 0, 0, 0, 0⟩⟩
  · exact damaged_noFrame hframe
  · have hwind : (Device.direct.process damaged 0 ⟨Vector.replicate 10 0, 0, ⟨0, 0, 0, 0, 0, 0, 0⟩⟩).map
        (fun out => out.published.wind_direct) = some 90 := by decide
    rw [hout, Option.map_some, hsame] at hwind
    exact absurd hwind (by decide)

/-- **When a function stays in bounds**: the last byte is not its address, and each of its headers is followed by a
byte count from four to ten whose data end in the snapshot. -/
theorem inBounds_iff (d : Device) (pro : Snapshot) :
    InBounds d pro ↔ pro[19] ≠ d.addr ∧ ∀ i, HeaderAt d.addr pro i → CountFits pro i := by
  obtain ⟨publish, -, -, hprocess, -⟩ := d.overwrites
  unfold InBounds
  rw [hprocess]
  constructor
  · intro h
    exact process_isSome.1 (h 0 ⟨Vector.replicate 10 0, 0, ⟨0, 0, 0, 0, 0, 0, 0⟩⟩)
  · exact fun h junk out => process_isSome.2 h

/-- A header with the byte count 255. -/
def longCount : Snapshot := #v[1, 3, 255, 0, 0, 0, 0, 0, 0, 0, 0, 0, 0, 0, 0, 0, 0, 0, 0, 0]

/-- **A byte count leads behind the data.** -/
theorem longCount_outOfBounds : ¬∀ d pro, InBounds d pro := by
  intro h
  have hin := h .direct longCount 0 ⟨Vector.replicate 10 0, 0, ⟨0, 0, 0, 0, 0, 0, 0⟩⟩
  exact absurd hin (by decide)

end RtThread.Modbus
