import RtThread.Spec.Ymodem
import Mathlib.Tactic.Common

/-!
# What the callbacks of the YMODEM receiver see

* `crc16_eq`: **`CRC16` is CRC-16/XMODEM**, for every length.
* `readDataLoop_reads`: what `_rym_read_data` puts into the buffer, over any number of partial reads.
* `sees_verified`: **the callbacks see only verified bytes**, if the clock runs and the last header is a short one.
-/

namespace RtThread.Ymodem

open Buffer

variable {c c' : Ctx} {es : List Event} {data : List Byte} {n : ℕ}

/-! ## The CRC -/

/-- The table holds eight shifts of each byte. -/
theorem table_eq (i : Fin 256) :
    Crc.shiftsUp 0x1021 8 ((BitVec.ofFin (w := 8) i).setWidth 16 <<< 8) = ccittTable.get i := by
  have htable : (List.finRange 256).map (fun i =>
      Crc.shiftsUp 0x1021 8 ((BitVec.ofFin (w := 8) i).setWidth 16 <<< 8)) = ccittTable.toList := by
    set_option maxRecDepth 20000 in decide
  have hentry := congrArg (·[i.val]?) htable
  have hcell : Crc.shiftsUp 0x1021 8 ((BitVec.ofFin (w := 8) i).setWidth 16 <<< 8) = ccittTable[i] := by
    simpa [List.getElem?_map, i.isLt] using hentry
  exact hcell

theorem crcLoop_eq (crc : BitVec 16) (q : List Byte) : crcLoop crc q = Crc.runUp 0x1021 crc q := by
  induction q generalizing crc with
  | nil => rfl
  | cons b q ih =>
    have hround : Crc.byteUp 0x1021 crc b = crc <<< 8 ^^^ ccittTable.get ((crc >>> 8).setWidth 8 ^^^ b).toFin := by
      rw [Crc.byteUp_eq 0x1021 (by decide), ← table_eq, BitVec.ofFin_toFin, BitVec.xor_comm]
    rw [crcLoop, Crc.runUp, List.foldl_cons, hround]
    exact ih _

/-- **`CRC16` is CRC-16/XMODEM.** -/
theorem crc16_eq (q : List Byte) : crc16 q = xmodemCrc q := crcLoop_eq 0 q

/-- The check value of CRC-16/XMODEM, that of the digits from 1 to 9. -/
example : crc16 [0x31, 0x32, 0x33, 0x34, 0x35, 0x36, 0x37, 0x38, 0x39] = 0x31C3 := by
  set_option maxRecDepth 20000 in decide

/-! ## Reading -/

theorem delivered_append (a b : List Event) : delivered (a ++ b) = delivered a ++ delivered b := List.flatMap_append

theorem receive_some {i : ℕ} {bytes : List Byte} (h : c.receive i bytes = some c') :
    i + bytes.length ≤ c.buf.length ∧
      c' = { c with
        buf := c.buf.take i ++ bytes ++ c.buf.drop (i + bytes.length)
        heard := c.heard ++ bytes } := by
  obtain ⟨buf, hbuf, rfl⟩ := Option.map_eq_some_iff.1 h
  unfold blit at hbuf
  split at hbuf
  · rename_i hle
    cases hbuf
    exact ⟨hle, rfl⟩
  · cases hbuf

/-- The receiver that has put `got` behind the first `1 + r` bytes of the buffer. -/
def Ctx.readAs (c : Ctx) (r : ℕ) (got : List Byte) (es : List Event) : Ctx :=
  { c with
    buf := c.buf.take (1 + r) ++ got ++ c.buf.drop (1 + r + got.length)
    heard := c.heard ++ got
    events := es }

theorem readAs_readAs {r : ℕ} {got got' : List Byte} {es es' : List Event} (h : 1 + r + got.length ≤ c.buf.length) :
    (c.readAs r got es).readAs (r + got.length) got' es' = c.readAs r (got ++ got') es' := by
  have hlen : (c.buf.take (1 + r) ++ got).length = 1 + (r + got.length) := by
    rw [List.length_append, List.length_take]
    omega
  have hdrop : c.buf.drop (1 + r + (got ++ got').length) = (c.buf.drop (1 + r + got.length)).drop got'.length := by
    rw [List.drop_drop, List.length_append]
    congr 1
    omega
  have hbuf : (c.buf.take (1 + r) ++ got ++ c.buf.drop (1 + r + got.length)).drop (1 + (r + got.length) + got'.length) =
      c.buf.drop (1 + r + (got ++ got').length) := by
    rw [← hlen, ← List.drop_drop, List.drop_left, hdrop]
  simp only [Ctx.readAs]
  rw [hbuf, List.take_left' hlen]
  simp only [List.append_assoc]

/-- **`_rym_read_data`**: the bytes that it puts behind the first `1 + r`, and the events that it takes. A read that ends
early has waited in vain. -/
theorem readDataLoop_reads {len r : ℕ} (h : readDataLoop len es r c = some (n, c')) :
    ∃ used es', es = used ++ es' ∧ n = r + (delivered used).length ∧ 1 + n ≤ c.buf.length ∧
      (n < len → .take false ∈ used) ∧ (r ≤ len → n ≤ len) ∧ c' = c.readAs r (delivered used) es' := by
  fun_induction readDataLoop len es r c with
  | case1 bytes es r c hle ih =>
    obtain ⟨c₁, hreceive, h⟩ := Option.bind_eq_some_iff.1 h
    obtain ⟨hroom, rfl⟩ := receive_some hreceive
    have hone : delivered [.read bytes] = bytes := List.append_nil bytes
    dsimp only at h
    split at h
    · cases h
      refine ⟨[.read bytes], es, rfl, by rw [hone], by omega, fun hlt => by omega, fun _ => by omega, ?_⟩
      rw [hone]
      rfl
    · rename_i hshort
      have hused : ∀ ok used, delivered (.read bytes :: .take ok :: used) = bytes ++ delivered used := fun _ _ => rfl
      match es, h, ih with
      | .take true :: es, h, ih =>
        have hgot : r + bytes.length ≤ len := by omega
        obtain ⟨used, es', rfl, hn, hroom', hwait, hle', hc⟩ := ih (c.readAs r bytes c.events) h
        have hlen : (c.readAs r bytes c.events).buf.length = c.buf.length := by
          simp only [Ctx.readAs, List.length_append, List.length_take, List.length_drop]
          omega
        refine ⟨.read bytes :: .take true :: used, es', rfl, ?_, by omega, fun hlt => ?_, fun _ => hle' hgot, ?_⟩
        · rw [hused, List.length_append]
          omega
        · exact List.mem_cons_of_mem _ (List.mem_cons_of_mem _ (hwait hlt))
        · rw [hused, hc, readAs_readAs (by omega)]
      | .take false :: es, h, _ =>
        cases h
        refine ⟨[.read bytes, .take false], es, rfl, ?_, by omega, fun _ => by simp, fun _ => by omega, ?_⟩
        · rw [hused]
          simp [delivered]
        · rw [hused]
          simp [delivered, Ctx.readAs]
  | case2 bytes es r c hle => cases h
  | case3 => cases h

/-- What a part of a call takes from the list of events and hears, without calling back. -/
structure Moved (c c' : Ctx) (used : List Event) : Prop where
  events : c.events = used ++ c'.events
  heard : c'.heard = c.heard ++ delivered used
  calls : c'.calls = c.calls

/-- The same for a part that only reads. -/
structure Reads (c c' : Ctx) (used : List Event) : Prop extends Moved c c' used where
  stage : c'.stage = c.stage
  hasData : c'.hasData = c.hasData
  sent : c'.sent = c.sent

theorem Moved.trans {c₁ c₂ : Ctx} {used used' : List Event} (h : Moved c c₁ used) (h' : Moved c₁ c₂ used') :
    Moved c c₂ (used ++ used') where
  events := by rw [h.events, h'.events, List.append_assoc]
  heard := by rw [h'.heard, h.heard, delivered_append, List.append_assoc]
  calls := h'.calls.trans h.calls

/-- **A full read**: one byte of the buffer, and then what has been heard. -/
theorem rymReadData_full {len : ℕ} (h : rymReadData len c = some (len, c')) :
    ∃ used b rest, Reads c c' used ∧ (delivered used).length = len ∧ c'.buf = b :: (delivered used ++ rest) := by
  obtain ⟨used, es', hes, hlen, hroom, -, -, rfl⟩ := readDataLoop_reads h
  rw [Nat.zero_add] at hlen
  obtain ⟨b, rest, hbuf⟩ : ∃ b rest, c.buf = b :: rest := by
    apply List.exists_cons_of_ne_nil
    rintro h0
    rw [h0] at hroom
    simp at hroom
  have htake : c.buf.take (1 + 0) = [b] := by
    rw [hbuf]
    rfl
  refine ⟨used, b, c.buf.drop (1 + 0 + (delivered used).length), ⟨⟨hes, rfl, rfl⟩, rfl, rfl, rfl⟩, hlen.symm, ?_⟩
  simp only [Ctx.readAs, htake]
  rfl

theorem rymReadData_short {len m : ℕ} (h : rymReadData len c = some (m, c')) (hm : m ≠ len) :
    ∃ used, Moved c c' used ∧ .take false ∈ used := by
  obtain ⟨used, es', hes, -, -, hwait, hle, rfl⟩ := readDataLoop_reads h
  have := hle (Nat.zero_le _)
  exact ⟨used, ⟨hes, rfl, rfl⟩, hwait (by omega)⟩

theorem readCodeSlow_reads {b : Byte} (h : readCodeSlow es c = some (b, c')) :
    ∃ used, Reads { c with events := es } c' used ∧
      (.take false ∈ used ∧ b = RYM_CODE_NONE ∨ delivered used = [b]) := by
  fun_induction readCodeSlow es c with
  | case1 es c =>
    cases h
    exact ⟨[.take false], ⟨⟨rfl, (List.append_nil _).symm, rfl⟩, rfl, rfl, rfl⟩, .inl ⟨List.mem_cons_self, rfl⟩⟩
  | case2 b' es c =>
    obtain ⟨c₁, hreceive, heq⟩ := Option.map_eq_some_iff.1 h
    obtain ⟨-, rfl⟩ := receive_some hreceive
    cases heq
    exact ⟨[.take true, .read [b]], ⟨⟨rfl, rfl, rfl⟩, rfl, rfl, rfl⟩, .inr rfl⟩
  | case3 es c ih =>
    obtain ⟨used, hreads, hb⟩ := ih h
    refine ⟨.take true :: .read [] :: used,
      ⟨⟨?_, hreads.heard, hreads.calls⟩, hreads.stage, hreads.hasData, hreads.sent⟩, ?_⟩
    · exact congrArg (fun es => .take true :: .read [] :: es) hreads.events
    · exact hb.imp_left fun h => ⟨List.mem_cons_of_mem _ (List.mem_cons_of_mem _ h.1), h.2⟩
  | case4 => cases h

/-- **`_rym_read_code`** has waited in vain, or heard its code. -/
theorem rymReadCode_reads {b : Byte} (h : rymReadCode c = some (b, c')) :
    ∃ used, Reads c c' used ∧ (.take false ∈ used ∧ b = RYM_CODE_NONE ∨ delivered used = [b]) := by
  unfold rymReadCode at h
  split at h
  · rename_i b' es hes
    obtain ⟨c₁, hreceive, heq⟩ := Option.map_eq_some_iff.1 h
    obtain ⟨-, rfl⟩ := receive_some hreceive
    cases heq
    exact ⟨[.read [b]], ⟨⟨hes, rfl, rfl⟩, rfl, rfl, rfl⟩, .inr rfl⟩
  · rename_i es hes
    obtain ⟨used, hreads, hb⟩ := readCodeSlow_reads h
    refine ⟨.read [] :: used, ⟨⟨?_, hreads.heard, hreads.calls⟩, hreads.stage, hreads.hasData, hreads.sent⟩, ?_⟩
    · rw [hes]
      exact congrArg (Event.read [] :: ·) hreads.events
    · exact hb.imp_left fun h => ⟨List.mem_cons_of_mem _ h.1, h.2⟩
  · cases h

theorem rymReadCode_moved {b : Byte} (h : rymReadCode c = some (b, c')) :
    ∃ used, Moved c c' used ∧ (b ≠ RYM_CODE_NONE → delivered used = [b]) := by
  obtain ⟨used, hreads, hb⟩ := rymReadCode_reads h
  exact ⟨used, hreads.toMoved, fun hne => hb.resolve_left fun h => hne h.2⟩

/-! ## The frame -/

/-- The CRC field of a frame in the buffer, and its payload. -/
theorem crcMatches_frame {rest payload : List Byte} {b seq nseq high low : Byte}
    (hbuf : c.buf = b :: (seq :: nseq :: (payload ++ [high, low]) ++ rest)) :
    crcMatches c (payload.length + 4) payload.length = some (payload, high ++ low == crc16 payload) := by
  have hhigh : c.buf[payload.length + 4 - 1]? = some high := by
    have hcut : c.buf = (b :: seq :: nseq :: payload) ++ high :: low :: rest := by simp [hbuf]
    rw [hcut, show payload.length + 4 - 1 = (b :: seq :: nseq :: payload).length by simp,
      List.getElem?_append_right le_rfl, Nat.sub_self]
    rfl
  have hlow : c.buf[payload.length + 4]? = some low := by
    have hcut : c.buf = (b :: seq :: nseq :: (payload ++ [high])) ++ low :: rest := by simp [hbuf]
    rw [hcut, show payload.length + 4 = (b :: seq :: nseq :: (payload ++ [high])).length by simp,
      List.getElem?_append_right le_rfl, Nat.sub_self]
    rfl
  have hread : Buffer.read c.buf 3 payload.length = some payload := by
    unfold Buffer.read
    rw [hbuf, if_pos (by simp; omega)]
    simp
  unfold crcMatches
  rw [hhigh, hlow, hread]
  rfl

/-- **A frame in the buffer** whose CRC is right. -/
theorem frame_of_crc {got rest : List Byte} {b : Byte} (hbuf : c.buf = b :: (got ++ rest)) (hlen : got.length = n + 4)
    (hcrc : crcMatches c (n + 4) n = some (data, true)) :
    ∃ seq nseq high low, got = seq :: nseq :: (data ++ [high, low]) ∧ data.length = n ∧
      high ++ low = xmodemCrc data := by
  obtain ⟨seq, nseq, body, rfl, hbody⟩ : ∃ seq nseq body, got = seq :: nseq :: body ∧ body.length = n + 2 := by
    match got, hlen with
    | seq :: nseq :: body, hlen => exact ⟨seq, nseq, body, rfl, by simpa using hlen⟩
  obtain ⟨payload, high, low, rfl, rfl⟩ : ∃ payload high low, body = payload ++ [high, low] ∧ payload.length = n := by
    have hdrop : (body.drop n).length = 2 := by
      rw [List.length_drop, hbody]
      omega
    obtain ⟨high, low, hhl⟩ := List.length_eq_two.1 hdrop
    refine ⟨body.take n, high, low, ?_, by rw [List.length_take]; omega⟩
    rw [← hhl, List.take_append_drop]
  rw [crcMatches_frame hbuf] at hcrc
  obtain ⟨rfl, hmatch⟩ := Prod.mk.inj (Option.some.inj hcrc)
  refine ⟨seq, nseq, high, low, rfl, rfl, ?_⟩
  rw [← crc16_eq]
  exact eq_of_beq hmatch

/-- The payload that a full read leaves in the buffer. -/
theorem read_payload {got rest : List Byte} {b seq nseq high low : Byte} (hbuf : c.buf = b :: (got ++ rest))
    (hgot : got = seq :: nseq :: (data ++ [high, low])) : read c.buf 3 data.length = some data := by
  unfold Buffer.read
  rw [hbuf, hgot, if_pos (by simp; omega)]
  simp

theorem call_some {x : Call} {code : Byte} (h : c.call x = some (code, c')) :
    c'.heard = c.heard ∧ c'.calls = c.calls ++ [x] := by
  unfold Ctx.call at h
  split at h
  · cases h
    exact ⟨rfl, rfl⟩
  · cases h

theorem beginWith_some {r : Except RymErr Unit} (h : beginWith c data = some (r, c')) :
    c'.heard = c.heard ∧ (c'.calls = c.calls ∨ c'.calls = c.calls ++ [.onBegin data]) := by
  unfold beginWith at h
  split at h
  · obtain ⟨⟨code, c₁⟩, hcall, heq⟩ := Option.bind_eq_some_iff.1 h
    cases heq
    exact ⟨(call_some hcall).1, .inr (call_some hcall).2⟩
  · cases h
    exact ⟨rfl, .inl rfl⟩

/-! ## The calls -/

/-- Since `c`, at most `on_end` has been called. -/
structure Quiet (c c' : Ctx) : Prop where
  length : c.calls.length ≤ c'.calls.length
  ends : ∀ x ∈ c'.calls.drop c.calls.length, ∃ d, x = .onEnd d

theorem Quiet.of_eq (h : c'.calls = c.calls) : Quiet c c' where
  length := by rw [h]
  ends := by
    intro x hx
    rw [h, List.drop_length] at hx
    exact absurd hx List.not_mem_nil

theorem Quiet.not_called (h : Quiet c c') :
    ¬(.onBegin data ∈ c'.calls.drop c.calls.length ∨ .onData data ∈ c'.calls.drop c.calls.length) := by
  rintro (hx | hx)
  · obtain ⟨d, hd⟩ := h.ends _ hx
    cases hd
  · obtain ⟨d, hd⟩ := h.ends _ hx
    cases hd

/-- One more call. -/
theorem Quiet.called {c₁ : Ctx} {x y : Call} (h : Quiet c c₁) (hcalls : c'.calls = c₁.calls ++ [y])
    (hx : x ∈ c'.calls.drop c.calls.length) : x = y ∨ ∃ d, x = .onEnd d := by
  rw [hcalls, List.drop_append_of_le_length h.length, List.mem_append, List.mem_singleton] at hx
  exact hx.elim (fun hx => .inr (h.ends x hx)) .inl

/-- A payload that is handed on by `on_begin`. -/
theorem Quiet.begin {c₁ c₂ : Ctx} {payload : List Byte} {r : Except RymErr Unit} (hquiet : Quiet c c₁)
    (h : beginWith c₁ payload = some (r, c₂))
    (hcall : .onBegin data ∈ c₂.calls.drop c.calls.length ∨ .onData data ∈ c₂.calls.drop c.calls.length) :
    c₂.heard = c₁.heard ∧ data = payload := by
  obtain ⟨hheard, hsame | hnew⟩ := beginWith_some h
  · have hquiet₂ : Quiet c c₂ := ⟨hsame ▸ hquiet.length, hsame ▸ hquiet.ends⟩
    exact absurd hcall hquiet₂.not_called
  · refine ⟨hheard, ?_⟩
    obtain hx | hx := hcall
    · obtain h | ⟨d, h⟩ := hquiet.called hnew hx
      · exact Call.onBegin.inj h
      · cases h
    · obtain h | ⟨d, h⟩ := hquiet.called hnew hx
      · cases h
      · cases h

theorem rymTransData_verified (dataSz : ℕ) (c : Ctx) : SeesVerified (.trans dataSz) c := by
  intro c' hrun data hcall
  obtain ⟨⟨r, c₁⟩, htrans, rfl⟩ := Option.map_eq_some_iff.1 hrun
  rw [rymTransData] at htrans
  obtain ⟨⟨i, c₂⟩, hread, hrun⟩ := Option.bind_eq_some_iff.1 htrans
  by_cases hi : i = 2 + dataSz + 2
  · subst hi
    obtain ⟨used, b, rest, hmoved, hlen, hbuf⟩ := rymReadData_full hread
    dsimp only at hrun
    rw [if_neg (by simp)] at hrun
    obtain ⟨seq, -, hrun⟩ := Option.bind_eq_some_iff.1 hrun
    obtain ⟨nseq, -, hrun⟩ := Option.bind_eq_some_iff.1 hrun
    split at hrun
    · cases hrun
      exact absurd hcall (Quiet.of_eq hmoved.calls).not_called
    split at hrun
    · cases hrun
      exact absurd hcall (Quiet.of_eq hmoved.calls).not_called
    obtain ⟨⟨payload, ok⟩, hcrc, hrun⟩ := Option.bind_eq_some_iff.1 hrun
    dsimp only at hrun
    split at hrun
    · cases hrun
      exact absurd hcall (Quiet.of_eq hmoved.calls).not_called
    · rename_i hok
      obtain rfl : ok = true := by simpa using hok
      rw [show 2 + dataSz + 2 = dataSz + 4 by omega] at hcrc hlen
      obtain ⟨seq, nseq, high, low, hgot, hpay, hmatch⟩ := frame_of_crc (c := { c₂ with stage := .transmitting }) hbuf hlen hcrc
      unfold dataWith at hrun
      split at hrun
      · obtain ⟨⟨code, c₃⟩, hcb, heq⟩ := Option.bind_eq_some_iff.1 hrun
        cases heq
        obtain ⟨hheard, hcalls⟩ := call_some hcb
        have hquiet : Quiet c c₂ := .of_eq hmoved.calls
        have hdata : data = payload := by
          obtain hx | hx := hcall
          · obtain h | ⟨d, h⟩ := hquiet.called hcalls hx
            · cases h
            · cases h
          · obtain h | ⟨d, h⟩ := hquiet.called hcalls hx
            · exact Call.onData.inj h
            · cases h
        subst hdata
        refine ⟨[], seq, nseq, high, low, ?_, ⟨rfl, hpay⟩, hmatch⟩
        dsimp only
        rw [hheard, List.nil_append, ← hgot]
        exact hmoved.heard
      · cases hrun
        exact absurd hcall (Quiet.of_eq hmoved.calls).not_called
  · dsimp only at hrun
    rw [if_pos hi] at hrun
    cases hrun
    obtain ⟨used, hmoved, -⟩ := rymReadData_short hread hi
    exact absurd hcall (Quiet.of_eq hmoved.calls).not_called

/-- What `_rym_do_handshake` has heard when it has the code of a header. -/
theorem askHeader_moved {tmSec : ℕ} {size : Option ℕ} (h : askHeader tmSec c = some (size, c')) :
    ∃ used, Moved c c' used ∧ ∀ dataSz, size = some dataSz →
      ∃ pre, delivered used = pre ++ [RYM_CODE_SOH] ∧ dataSz = RYM_SOH_PKG_SZ ∨
        delivered used = pre ++ [RYM_CODE_STX] ∧ dataSz = RYM_STX_PKG_SZ := by
  induction tmSec generalizing c with
  | zero =>
    cases h
    exact ⟨[], ⟨rfl, (List.append_nil _).symm, rfl⟩, nofun⟩
  | succ tmSec ih =>
    rw [askHeader] at h
    obtain ⟨⟨code, c₁⟩, hcode, h⟩ := Option.bind_eq_some_iff.1 h
    obtain ⟨used, hmoved, hb⟩ := rymReadCode_moved hcode
    have hmoved : Moved c c₁ used := ⟨hmoved.events, hmoved.heard, hmoved.calls⟩
    dsimp only at h
    split at h
    · rename_i hsoh
      cases h
      refine ⟨used, hmoved, fun dataSz hsize => ⟨[], .inl ⟨?_, (Option.some.inj hsize).symm⟩⟩⟩
      rw [hb (by rw [hsoh]; decide), hsoh]
      rfl
    split at h
    · rename_i hstx
      cases h
      refine ⟨used, hmoved, fun dataSz hsize => ⟨[], .inr ⟨?_, (Option.some.inj hsize).symm⟩⟩⟩
      rw [hb (by rw [hstx]; decide), hstx]
      rfl
    obtain ⟨used', hmoved', hsize⟩ := ih h
    refine ⟨used ++ used', hmoved.trans hmoved', fun dataSz heq => ?_⟩
    obtain ⟨pre, hpre⟩ := hsize dataSz heq
    refine ⟨delivered used ++ pre, ?_⟩
    rw [delivered_append, List.append_assoc, List.append_assoc]
    exact hpre.imp (fun h => ⟨by rw [h.1], h.2⟩) fun h => ⟨by rw [h.1], h.2⟩

/-- **The header in one piece**: a read that ends early has waited, and behind a wait the time is over. -/
theorem headerLoop_full {dataSz rounds : ℕ} {tick : BitVec 32} {before : List Event} (hpos : 0 < dataSz - 1)
    (hclock : ClockRuns (before ++ .tick tick :: c.events))
    (h : headerLoop dataSz tick rounds 0 c = some (dataSz - 1, c')) :
    ∃ used b rest, Moved c c' used ∧ (delivered used).length = dataSz - 1 ∧ c'.buf = b :: (delivered used ++ rest) := by
  cases rounds with
  | zero => cases h
  | succ rounds =>
    rw [headerLoop] at h
    split at h
    · rename_i now es hes
      split at h
      · obtain ⟨⟨m, c₁⟩, hread, h⟩ := Option.bind_eq_some_iff.1 h
        cases rounds with
        | zero => cases h
        | succ rounds =>
          dsimp only at h
          rw [Nat.zero_add, headerLoop] at h
          split at h
          · rename_i now' es' hes'
            by_cases hm : m = dataSz - 1
            · subst hm
              obtain ⟨used, b, rest, hmoved, hlen, hbuf⟩ := rymReadData_full hread
              rw [if_neg (by omega)] at h
              cases h
              refine ⟨.tick now :: (used ++ [.tick now']), b, rest, ⟨?_, ?_, hmoved.calls⟩, ?_, ?_⟩
              · have := hmoved.events
                rw [hes'] at this
                rw [hes, List.cons_append, List.append_assoc]
                exact congrArg _ this
              · have hd : delivered (.tick now :: (used ++ [.tick now'])) = delivered used := by
                  simp [delivered]
                rw [hd]
                exact hmoved.heard
              · simpa [delivered] using hlen
              · simpa [delivered] using hbuf
            · obtain ⟨used, hmoved, hwait⟩ := rymReadData_short hread hm
              have hevents := hmoved.events
              rw [hes'] at hevents
              have hlate := hclock before (.tick now :: used) es' tick now'
                (by rw [hes]; exact congrArg (fun l => before ++ .tick tick :: .tick now :: l) hevents)
                (List.mem_cons_of_mem _ hwait)
              rw [if_neg fun hgo => hlate hgo.1] at h
              exact absurd (Prod.mk.inj (Option.some.inj h)).1 hm
          · cases h
      · obtain ⟨h0, -⟩ := Prod.mk.inj (Option.some.inj h)
        omega
    · cases h

theorem rymReadData_calls {len m : ℕ} (h : rymReadData len c = some (m, c')) : c'.calls = c.calls := by
  obtain ⟨used, es', -, -, -, -, -, rfl⟩ := readDataLoop_reads h
  rfl

theorem headerLoop_calls {dataSz rounds i m : ℕ} {tick : BitVec 32}
    (h : headerLoop dataSz tick rounds i c = some (m, c')) : c'.calls = c.calls := by
  induction rounds generalizing i c with
  | zero => cases h
  | succ rounds ih =>
    rw [headerLoop] at h
    split at h
    · split at h
      · obtain ⟨⟨k, c₁⟩, hread, h⟩ := Option.bind_eq_some_iff.1 h
        have hcalls := rymReadData_calls hread
        exact (ih h).trans hcalls
      · cases h
        rfl
    · cases h

theorem rymDoHandshake_verified (tmSec : ℕ) (c : Ctx) (hclock : ClockRuns c.events) :
    SeesVerified (.handshake tmSec) c := by
  intro c' hrun data hcall
  obtain ⟨⟨r, c₁⟩, hshake, rfl⟩ := Option.map_eq_some_iff.1 hrun
  rw [rymDoHandshake] at hshake
  obtain ⟨⟨size, c₂⟩, hask, hshake⟩ := Option.bind_eq_some_iff.1 hshake
  obtain ⟨used, hmoved, hsize⟩ := askHeader_moved hask
  have hmoved : Moved c c₂ used := ⟨hmoved.events, hmoved.heard, hmoved.calls⟩
  dsimp only at hshake
  split at hshake
  · cases hshake
    exact absurd hcall (Quiet.of_eq hmoved.calls).not_called
  · rename_i dataSz tick es hes
    obtain ⟨⟨i, c₃⟩, hloop, hshake⟩ := Option.bind_eq_some_iff.1 hshake
    obtain ⟨pre, hpre⟩ := hsize dataSz rfl
    have hcalls : c₃.calls = c.calls := (headerLoop_calls hloop).trans hmoved.calls
    obtain ⟨n, hn, hdataSz⟩ : ∃ n, (delivered used = pre ++ [RYM_CODE_SOH] ∧ n = 128 ∨
        delivered used = pre ++ [RYM_CODE_STX] ∧ n = 1024) ∧ dataSz = n + 5 := by
      obtain ⟨h, rfl⟩ | ⟨h, rfl⟩ := hpre
      · exact ⟨128, .inl ⟨h, rfl⟩, rfl⟩
      · exact ⟨1024, .inr ⟨h, rfl⟩, rfl⟩
    subst hdataSz
    rw [show n + 5 - 1 = n + 4 by omega, show n + 5 - 5 = n by omega] at hshake
    dsimp only at hshake
    split at hshake
    · cases hshake
      exact absurd hcall (Quiet.of_eq hcalls).not_called
    rename_i hi
    obtain rfl : i = n + 4 := by simpa using hi
    have hclock' : ClockRuns (used ++ .tick tick :: es) := by
      rw [← hes, ← hmoved.events]
      exact hclock
    obtain ⟨used', b, rest, hmoved', hlen, hbuf⟩ := headerLoop_full (by omega) hclock' hloop
    have hheard : c₃.heard = c.heard ++ (delivered used ++ delivered used') := by
      rw [← List.append_assoc, ← hmoved.heard]
      exact hmoved'.heard
    obtain ⟨seq, -, hshake⟩ := Option.bind_eq_some_iff.1 hshake
    obtain ⟨nseq, -, hshake⟩ := Option.bind_eq_some_iff.1 hshake
    split at hshake
    · cases hshake
      exact absurd hcall (Quiet.of_eq hcalls).not_called
    obtain ⟨⟨payload, ok⟩, hcrc, hshake⟩ := Option.bind_eq_some_iff.1 hshake
    dsimp only at hshake
    split at hshake
    · cases hshake
      exact absurd hcall (Quiet.of_eq hcalls).not_called
    rename_i hok
    obtain rfl : ok = true := by simpa using hok
    obtain ⟨seq, nseq, high, low, hgot, hpay, hmatch⟩ := frame_of_crc hbuf (by omega) hcrc
    obtain ⟨hheard', rfl⟩ := (Quiet.of_eq hcalls).begin hshake hcall
    refine ⟨delivered used, seq, nseq, high, low, ?_, ⟨pre, ?_⟩, hmatch⟩
    · rw [← hgot, ← hheard]
      exact hheard'
    · rw [hpay]
      exact hn
  · cases hshake

theorem endWith_some (h : endWith c = some c') :
    ∃ used, c.events = used ++ c'.events ∧ delivered used = [] ∧ c'.heard = c.heard ∧ Quiet c c' := by
  unfold endWith at h
  split at h
  · obtain ⟨data, -, h⟩ := Option.bind_eq_some_iff.1 h
    obtain ⟨⟨code, c₁⟩, hcall, h⟩ := Option.bind_eq_some_iff.1 h
    cases h
    obtain ⟨hheard, hcalls⟩ := call_some hcall
    unfold Ctx.call at hcall
    split at hcall
    · rename_i code' es hes
      cases hcall
      refine ⟨[.returned code], hes, rfl, hheard, ⟨?_, fun x hx => ⟨data, ?_⟩⟩⟩
      · rw [hcalls, List.length_append]
        exact Nat.le_add_right _ _
      · rw [hcalls, List.drop_left] at hx
        exact List.mem_singleton.1 hx
    · cases hcall
  · cases h
    exact ⟨[], rfl, rfl, rfl, .of_eq rfl⟩

theorem rymDoFin_verified (c : Ctx) (hlast : (delivered c.events)[1]? ≠ some RYM_CODE_STX) : SeesVerified .fin c := by
  intro c' hrun data hcall
  obtain ⟨⟨r, c₁⟩, hfin, rfl⟩ := Option.map_eq_some_iff.1 hrun
  rw [rymDoFin] at hfin
  obtain ⟨c₂, hend, hfin⟩ := Option.bind_eq_some_iff.1 hfin
  obtain ⟨used₀, hes₀, hd₀, hheard₀, hquiet⟩ := endWith_some hend
  have hquiet : ∀ {c₃ : Ctx}, c₃.calls = c₂.calls → Quiet c c₃ := fun h => ⟨h ▸ hquiet.length, h ▸ hquiet.ends⟩
  obtain ⟨⟨code, c₃⟩, hcode, hfin⟩ := Option.bind_eq_some_iff.1 hfin
  obtain ⟨used₁, hmoved₁, hb₁⟩ := rymReadCode_moved hcode
  have hmoved₁ : Moved c₂ c₃ used₁ := ⟨hmoved₁.events, hmoved₁.heard, hmoved₁.calls⟩
  dsimp only at hfin
  split at hfin
  · cases hfin
    exact absurd hcall (hquiet hmoved₁.calls).not_called
  rename_i heot
  obtain rfl : code = RYM_CODE_EOT := by simpa using heot
  have hone := hb₁ (by decide)
  obtain ⟨⟨code, c₄⟩, hcode, hfin⟩ := Option.bind_eq_some_iff.1 hfin
  obtain ⟨used₂, hmoved₂, hb₂⟩ := rymReadCode_moved hcode
  have hmoved₂ : Moved c₂ c₄ (used₁ ++ used₂) := hmoved₁.trans ⟨hmoved₂.events, hmoved₂.heard, hmoved₂.calls⟩
  dsimp only at hfin
  split at hfin
  · rename_i hsize
    have htwo : delivered used₂ = [code] := hb₂ (by
      obtain h | h := hsize
      · rw [h]
        decide
      · rw [h]
        decide)
    have hall : delivered c.events = RYM_CODE_EOT :: code :: delivered c₄.events := by
      have hes : c.events = used₀ ++ (used₁ ++ used₂ ++ c₄.events) := by
        rw [hes₀, hmoved₂.events]
      rw [hes, delivered_append, delivered_append, delivered_append, hd₀, hone, htwo]
      rfl
    have hsoh : code = RYM_CODE_SOH := by
      obtain h | h := hsize
      · exact h
      · refine absurd ?_ hlast
        rw [hall, h]
        rfl
    subst hsoh
    obtain ⟨⟨i, c₅⟩, hread, hfin⟩ := Option.bind_eq_some_iff.1 hfin
    have hcalls : c₅.calls = c₂.calls := (rymReadData_calls hread).trans hmoved₂.calls
    dsimp only at hfin
    split at hfin
    · cases hfin
      exact absurd hcall (hquiet hcalls).not_called
    rename_i hi
    obtain rfl : i = RYM_SOH_PKG_SZ - 1 := by simpa using hi
    obtain ⟨used₃, b, rest, hmoved₃, hlen, hbuf⟩ := rymReadData_full hread
    obtain ⟨seq, -, hfin⟩ := Option.bind_eq_some_iff.1 hfin
    obtain ⟨nseq, -, hfin⟩ := Option.bind_eq_some_iff.1 hfin
    split at hfin
    · cases hfin
      exact absurd hcall (hquiet hcalls).not_called
    obtain ⟨⟨payload, ok⟩, hcrc, hfin⟩ := Option.bind_eq_some_iff.1 hfin
    dsimp only at hfin
    split at hfin
    · cases hfin
      exact absurd hcall (hquiet hcalls).not_called
    rename_i hok
    obtain rfl : ok = true := by simpa using hok
    obtain ⟨seq, nseq, high, low, hgot, hpay, hmatch⟩ := frame_of_crc (n := 128) hbuf hlen hcrc
    obtain ⟨first, -, hfin⟩ := Option.bind_eq_some_iff.1 hfin
    split at hfin
    · obtain ⟨payload', hread', hfin⟩ := Option.bind_eq_some_iff.1 hfin
      have hsame := read_payload hbuf hgot
      rw [hpay] at hsame
      have hsame : payload' = payload := Option.some.inj (hread'.symm.trans hsame)
      subst hsame
      obtain ⟨hheard, rfl⟩ := (hquiet hcalls).begin hfin hcall
      refine ⟨[RYM_CODE_EOT, RYM_CODE_SOH], seq, nseq, high, low, ?_, ⟨[RYM_CODE_EOT], .inl ⟨rfl, hpay⟩⟩, hmatch⟩
      dsimp only
      rw [hheard, hmoved₃.heard, hgot, hmoved₂.heard, hheard₀, delivered_append, hone, htwo]
      simp
    · cases hfin
      exact absurd hcall (hquiet hcalls).not_called
  · cases hfin
    exact absurd hcall (hquiet hmoved₂.calls).not_called

/-- **The callbacks see only verified bytes**, if the clock runs in the handshake and the last header is a short one. -/
theorem sees_verified (e : Entry) (c : Ctx) (h : e.Clean c) : SeesVerified e c := by
  cases e with
  | handshake tmSec => exact rymDoHandshake_verified tmSec c h
  | trans dataSz => exact rymTransData_verified dataSz c
  | fin => exact rymDoFin_verified c h

/-- The letter `a`, its CRC, and zeros: a payload with the CRC zero. -/
def letter : List Byte := [0x61, 0x7C, 0x87] ++ List.replicate 125 0

/-- A receiver for files, and what it is going to hear. -/
def listening (events : List Event) : Ctx where
  stage := .none
  buf := List.replicate RYM_STX_PKG_SZ 0
  hasBegin := true
  hasData := true
  hasEnd := false
  heard := []
  sent := []
  calls := []
  events := events

theorem clockRuns_of_noWait {es : List Event} (h : .take false ∉ es) : ClockRuns es := by
  rintro a b d t₀ t rfl hwait
  refine absurd ?_ h
  simp [hwait]

/-- A header that comes in two pieces. -/
theorem sees_verified_header :
    SeesVerified (.handshake 1) (listening
      [.read [RYM_CODE_SOH], .tick 7, .tick 8, .read [0, 0xFF], .take true, .read (letter ++ [0, 0]), .tick 9,
        .returned RYM_CODE_ACK]) ∧
    ((Entry.handshake 1).run (listening
      [.read [RYM_CODE_SOH], .tick 7, .tick 8, .read [0, 0xFF], .take true, .read (letter ++ [0, 0]), .tick 9,
        .returned RYM_CODE_ACK])).any (fun c' => c'.calls = [.onBegin letter]) = true :=
  ⟨sees_verified _ _ (clockRuns_of_noWait (by decide)), by decide +kernel⟩

/-- The letter, its CRC, and whatever the buffer holds behind them. -/
def overlong : List Byte := letter ++ [0, 0] ++ List.replicate 894 0

/-- **A last header with `STX`**: 130 bytes of it are read, and 1024 are handed on. -/
theorem lastHeader_unverified : ¬∀ e c, SeesVerified e c := by
  intro h
  have hrun : (Entry.fin.run (listening
      [.read [RYM_CODE_EOT], .read [RYM_CODE_STX], .read ([0, 0xFF] ++ letter ++ [0, 0]),
        .returned RYM_CODE_ACK])).any (fun c' => c'.heard.length = 134 ∧ c'.calls = [.onBegin overlong]) = true := by
    set_option maxRecDepth 20000 in decide
  obtain ⟨c', hrun, hc'⟩ := (Option.any_eq_true _ _).1 hrun
  obtain ⟨hheard, hcalls⟩ := of_decide_eq_true hc'
  have hcall : .onBegin overlong ∈ c'.calls.drop 0 := by
    rw [hcalls]
    exact List.mem_cons_self
  obtain ⟨pre, seq, nseq, high, low, hframe, -, -⟩ := h .fin _ c' hrun overlong (.inl hcall)
  have hlen := congrArg List.length hframe
  have hover : overlong.length = 1024 := by
    set_option maxRecDepth 20000 in decide
  simp only [List.length_append, List.length_cons, hheard, hover] at hlen
  omega

end RtThread.Ymodem
