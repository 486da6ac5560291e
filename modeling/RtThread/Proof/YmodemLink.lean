import RtThread.Proof.Ymodem
import RtThread.Spec.YmodemLink

/-!
# What a YMODEM transfer delivers

The receiver does not look at the number of a data block: one that comes again, because its `ACK` is lost, is passed on
again.

* `transStep_block`, `transStep_header`: what the receiver does with a frame, in whatever pieces it arrives.
* `delivered_once`: **each block is passed on once, in order**, in the runs that send no data block again.
-/

namespace RtThread.Ymodem

open Buffer

variable {c c' : Ctx} {es : List Event} {b : Block} {seq : Byte} {r : Except RymErr Bool}

/-! ## One frame -/

theorem crc_halves (x : BitVec 16) : (x >>> 8).setWidth 8 ++ x.setWidth 8 = x := by
  apply BitVec.eq_of_getLsbD_eq
  intro i hi
  rw [BitVec.getLsbD_append]
  by_cases h : i < 8
  · simp [h]
  · have hlt : i - 8 < 8 := by omega
    have hsum : 8 + (i - 8) = i := by omega
    simp [h, hlt, hsum]

theorem complement_sum (seq : Byte) : seq.toNat + (~~~seq).toNat = 0xFF := by
  rw [BitVec.toNat_not]
  have := seq.isLt
  omega

/-- **A frame that arrives as it was sent** is read as a whole. -/
theorem rymReadData_frame {got : List Byte} {i : ℕ} (hd : delivered c.events = got) (hw : .take false ∉ c.events)
    (h : rymReadData got.length c = some (i, c')) :
    i = got.length ∧ ∃ used b rest, Reads c c' used ∧ c'.buf = b :: (got ++ rest) := by
  by_cases hi : i = got.length
  · subst hi
    obtain ⟨used, b, rest, hreads, hlen, hbuf⟩ := rymReadData_full h
    have hcut : got = delivered used ++ delivered c'.events := by
      rw [← delivered_append, ← hreads.events, hd]
    have hnil : delivered c'.events = [] := by
      have := congrArg List.length hcut
      rw [List.length_append, hlen] at this
      exact List.length_eq_zero_iff.1 (by omega)
    rw [hnil, List.append_nil] at hcut
    exact ⟨rfl, used, b, rest, hreads, by rw [hcut]; exact hbuf⟩
  · obtain ⟨used, hmoved, hwait⟩ := rymReadData_short h hi
    refine absurd ?_ hw
    rw [hmoved.events]
    exact List.mem_append_left _ hwait

/-- What stands behind the code of a frame. -/
def Block.body (b : Block) (seq : Byte) : List Byte :=
  seq :: ~~~seq :: (b.payload ++ [(b.crc >>> 8).setWidth 8, b.crc.setWidth 8])

theorem Block.length_body (b : Block) (seq : Byte) : (b.body seq).length = 2 + b.payload.length + 2 := by
  simp only [Block.body, List.length_cons, List.length_append, List.length_nil]
  omega

/-- `_rym_trans_data` on a frame. -/
theorem rymTransData_frame {r : Except RymErr Byte} (hd : delivered c.events = b.body seq)
    (hw : .take false ∉ c.events) (h : rymTransData b.payload.length c = some (r, c')) :
    ∃ c₁ used, Reads c c₁ used ∧
      (if c₁.stage = .established ∧ seq = 0 then some (.ok RYM_CODE_NONE, c₁)
      else dataWith { c₁ with stage := .transmitting } b.payload) = some (r, c') := by
  rw [rymTransData, ← b.length_body seq] at h
  obtain ⟨⟨i, c₁⟩, hread, h⟩ := Option.bind_eq_some_iff.1 h
  obtain ⟨rfl, used, b₀, rest, hreads, hbuf⟩ := rymReadData_frame hd hw hread
  have hcrc : ∀ c₂ : Ctx, c₂.buf = c₁.buf → crcMatches c₂ (2 + b.payload.length + 2) b.payload.length =
      some (b.payload, true) := by
    intro c₂ hc₂
    rw [hbuf] at hc₂
    rw [show 2 + b.payload.length + 2 = b.payload.length + 4 by omega, crcMatches_frame hc₂, crc_halves, crc16_eq, b.crc_eq,
      beq_self_eq_true]
  refine ⟨c₁, used, hreads, ?_⟩
  have hseq : c₁.buf[1]? = some seq := by rw [hbuf]; rfl
  have hnseq : c₁.buf[2]? = some (~~~seq) := by rw [hbuf]; rfl
  have hsum : ¬(seq.toNat + (~~~seq).toNat ≠ 0xFF) := not_not.2 (complement_sum seq)
  rw [← h]
  dsimp only
  rw [if_neg (not_not.2 rfl), hseq, hnseq]
  simp only [Option.bind_eq_bind, Option.bind_some]
  rw [if_neg hsum]
  split
  · rfl
  · rw [b.length_body, hcrc { c₁ with stage := .transmitting } rfl]
    rfl

/-- The loop body of `_rym_do_trans` on a frame. -/
theorem transStep_frame (hd : delivered es = b.frame seq) (hw : .take false ∉ es)
    (h : transStep { c with events := es } = some (r, c')) :
    ∃ (c₁ c₂ : Ctx) (r₁ : Except RymErr Byte), c₁.stage = c.stage ∧ c₁.hasData = c.hasData ∧ c₁.sent = c.sent ∧
      c₁.calls = c.calls ∧
      (if c₁.stage = .established ∧ seq = 0 then some (.ok RYM_CODE_NONE, c₁)
      else dataWith { c₁ with stage := .transmitting } b.payload) = some (r₁, c₂) ∧ (r, c') = answerWith r₁ c₂ := by
  rw [transStep] at h
  obtain ⟨⟨code, c₁⟩, hcode, h⟩ := Option.bind_eq_some_iff.1 h
  obtain ⟨used, hreads, hb⟩ := rymReadCode_reads hcode
  have hes : es = used ++ c₁.events := hreads.events
  have hone : delivered used = [code] := hb.resolve_left fun hwait => hw (hes ▸ List.mem_append_left _ hwait.1)
  have hframe : code :: delivered c₁.events = b.frame seq := by
    rw [← hd, hes, delivered_append, hone]
    rfl
  obtain ⟨hcode', hbody⟩ := List.cons.inj hframe
  have hsize : code = RYM_CODE_SOH ∧ b.payload.length = 128 ∨ code = RYM_CODE_STX ∧ b.payload.length = 1024 := by
    obtain h128 | h1024 := b.size
    · exact .inl ⟨by rw [hcode', if_pos h128], h128⟩
    · exact .inr ⟨by rw [hcode', if_neg (by omega)], h1024⟩
  have hlen : (if code = RYM_CODE_SOH then 128 else 1024) = b.payload.length := by
    obtain ⟨hc, hl⟩ | ⟨hc, hl⟩ := hsize
    · rw [hc, hl]
      rfl
    · rw [hc, hl]
      rfl
  have hknown : code ≠ RYM_CODE_EOT ∧ (code = RYM_CODE_SOH ∨ code = RYM_CODE_STX) := by
    obtain ⟨hc, -⟩ | ⟨hc, -⟩ := hsize
    · rw [hc]
      decide
    · rw [hc]
      decide
  dsimp only at h
  rw [if_neg hknown.1, if_pos hknown.2, hlen] at h
  obtain ⟨⟨r₁, c₂⟩, htrans, h⟩ := Option.bind_eq_some_iff.1 h
  obtain ⟨c₃, used', hreads', hrest⟩ := rymTransData_frame (b := b) hbody
    (fun hwait => hw (hes ▸ List.mem_append_right _ hwait)) htrans
  exact ⟨c₃, c₂, r₁, hreads'.stage.trans hreads.stage, hreads'.hasData.trans hreads.hasData,
    hreads'.sent.trans hreads.sent, hreads'.calls.trans hreads.calls, hrest, (Option.some.inj h).symm⟩

/-- **The header again**: it is ignored, and not acknowledged. -/
theorem transStep_header (hd : delivered es = b.frame 0) (hw : .take false ∉ es) (hst : c.stage = .established)
    (h : transStep { c with events := es } = some (r, c')) :
    r = .ok true ∧ c'.calls = c.calls ∧ c'.stage = .established ∧ c'.hasData = c.hasData ∧ c'.sent = c.sent := by
  obtain ⟨c₁, c₂, r₁, hstage, hdata, hsent, hcalls, h₁, h₂⟩ := transStep_frame hd hw h
  rw [if_pos ⟨hstage.trans hst, rfl⟩] at h₁
  cases h₁
  cases h₂
  exact ⟨rfl, hcalls, hstage.trans hst, hdata, hsent⟩

/-- **A data block** is passed on, and then answered: go on with an `ACK` or without one, or stop. -/
theorem transStep_block (hd : delivered es = b.frame seq) (hw : .take false ∉ es)
    (hnew : ¬(c.stage = .established ∧ seq = 0)) (hdata : c.hasData = true)
    (h : transStep { c with events := es } = some (r, c')) :
    c'.calls = c.calls ++ [.onData b.payload] ∧ c'.stage = .transmitting ∧ c'.hasData = true ∧
      (r = .ok true ∧ c'.sent = c.sent ++ [RYM_CODE_ACK] ∨ r = .ok true ∧ c'.sent = c.sent ∨
        r = .error .can ∧ c'.sent = c.sent ++ List.replicate RYM_END_SESSION_SEND_CAN_NUM RYM_CODE_CAN) := by
  obtain ⟨c₁, c₂, r₁, hstage, hdata', hsent, hcalls, h₁, h₂⟩ := transStep_frame hd hw h
  rw [if_neg (by rw [hstage]; exact hnew), dataWith, if_pos (hdata'.trans hdata)] at h₁
  obtain ⟨⟨code, c₃⟩, hcall, heq⟩ := Option.bind_eq_some_iff.1 h₁
  cases heq
  unfold Ctx.call at hcall
  split at hcall
  · cases hcall
    unfold answerWith at h₂
    dsimp only at h₂
    split at h₂
    · cases h₂
      exact ⟨by rw [← hcalls], rfl, hdata'.trans hdata, .inr (.inr ⟨rfl, by rw [← hsent]⟩)⟩
    split at h₂
    · cases h₂
      exact ⟨by rw [← hcalls]; rfl, rfl, hdata'.trans hdata, .inl ⟨rfl, by rw [← hsent]; rfl⟩⟩
    · cases h₂
      exact ⟨by rw [← hcalls], rfl, hdata'.trans hdata, .inr (.inl ⟨rfl, hsent⟩)⟩
  · cases hcall
/-! ## Runs -/

namespace Link

variable {header : Block} {blocks : List Block} {s s' : State} {a : Act}

theorem payloads_append (xs ys : List Call) : payloads (xs ++ ys) = payloads xs ++ payloads ys :=
  List.filterMap_append

@[simp] theorem payloads_onData (data : List Byte) : payloads [.onData data] = [data] := rfl

/-- The end of a wait ends the loop, and nothing is passed on. -/
theorem transStep_wait {c c' : Ctx} {r : Except RymErr Bool}
    (h : transStep { c with events := [.read [], .take false] } = some (r, c')) :
    r = .error .code ∧ c'.calls = c.calls ∧ c'.sent = c.sent := by
  cases h
  exact ⟨rfl, rfl, rfl⟩

theorem transStep_eot {c c' : Ctx} {r : Except RymErr Bool}
    (h : transStep { c with events := [.read [RYM_CODE_EOT]] } = some (r, c')) :
    r = .ok false ∧ c'.calls = c.calls ∧ c'.sent = c.sent := by
  rw [transStep, rymReadCode] at h
  dsimp only at h
  rw [Ctx.receive] at h
  obtain ⟨⟨code, c₁⟩, hcode, h⟩ := Option.bind_eq_some_iff.1 h
  obtain ⟨c₂, hc₂, hpair⟩ := Option.map_eq_some_iff.1 hcode
  obtain ⟨buf, -, rfl⟩ := Option.map_eq_some_iff.1 hc₂
  cases hpair
  cases h
  exact ⟨rfl, rfl, rfl⟩

/-- What a state of the receiver and the sender tells of the blocks that have been passed on. -/
def Kept (blocks : List Block) (s : State) : Prop :=
  match s.phase with
  | .header => payloads s.ctx.calls = [] ∧ s.acks ≤ 1 ∧
      (s.running = true → s.ctx.hasData = true ∧ s.ctx.stage = .established)
  | .block i => i < blocks.length ∧
      (s.running = true → s.ctx.hasData = true ∧ (s.ctx.stage = .established → i = 0 ∧ s.sent = false)) ∧
      (payloads s.ctx.calls = (blocks.take i).map (·.payload) ∧ s.acks = 0 ∧ (s.sent = true → s.running = false) ∨
        payloads s.ctx.calls = (blocks.take (i + 1)).map (·.payload) ∧ s.acks ≤ 1 ∧ s.sent = true)
  | .done => payloads s.ctx.calls = blocks.map (·.payload) ∧ s.acks = 0

theorem Kept.inOrder (h : Kept blocks s) : InOrder blocks s := by
  unfold Kept at h
  split at h
  · rename_i hphase
    refine ⟨?_, fun hdone => by rw [hphase] at hdone; cases hdone⟩
    rw [h.1]
    exact List.nil_prefix
  · rename_i hphase
    refine ⟨?_, fun hdone => by rw [hphase] at hdone; cases hdone⟩
    obtain ⟨-, -, ⟨hcalls, -⟩ | ⟨hcalls, -⟩⟩ := h
    · rw [hcalls]
      exact (List.take_prefix _ _).map _
    · rw [hcalls]
      exact (List.take_prefix _ _).map _
  · exact ⟨by rw [h.1], fun _ => h.1⟩

/-- The state after a block has been taken. -/
theorem hear_block {es : List Event} {i : ℕ} {b : Block} (hphase : s.phase = .block i) (hb : blocks[i]? = some b)
    (hd : delivered es = b.frame (BitVec.ofNat 8 (i + 1))) (hw : .take false ∉ es) (hsent : s.sent = true)
    (hdata : s.ctx.hasData = true) (hstage : s.ctx.stage = .established → i = 0)
    (hcalls : payloads s.ctx.calls = (blocks.take i).map (·.payload)) (hacks : s.acks = 0)
    (h : s.hear es = some s') : Kept blocks s' := by
  obtain ⟨⟨r, c⟩, htrans, heq⟩ := Option.bind_eq_some_iff.1 h
  have hnew : ¬(s.ctx.stage = .established ∧ BitVec.ofNat 8 (i + 1) = 0) := by
    rintro ⟨hest, hseq⟩
    rw [hstage hest] at hseq
    exact absurd hseq (by decide)
  obtain ⟨hpassed, hst, hhas, hanswer⟩ := transStep_block hd hw hnew hdata htrans
  have hlt : i < blocks.length := (List.getElem?_eq_some_iff.1 hb).1
  have htake : payloads c.calls = (blocks.take (i + 1)).map (·.payload) := by
    rw [hpassed, payloads_append, hcalls, payloads_onData, List.take_add_one, hb, Option.toList_some, List.map_append]
    rfl
  have hcount : s.acks + (c.sent.drop s.ctx.sent.length).count RYM_CODE_ACK ≤ 1 := by
    rw [hacks]
    obtain ⟨-, h⟩ | ⟨-, h⟩ | ⟨-, h⟩ := hanswer
    · rw [h, List.drop_left]
      decide
    · rw [h, List.drop_length]
      decide
    · rw [h, List.drop_left]
      decide
  cases heq
  unfold Kept
  dsimp only
  rw [hphase]
  exact ⟨hlt, fun _ => ⟨hhas, fun hest => by rw [hst] at hest; cases hest⟩, .inr ⟨htake, hcount, hsent⟩⟩

/-- The state after the header has come again. -/
theorem hear_header {es : List Event} (hphase : s.phase = .header) (hd : delivered es = header.frame 0)
    (hw : .take false ∉ es) (hdata : s.ctx.hasData = true) (hstage : s.ctx.stage = .established)
    (hcalls : payloads s.ctx.calls = []) (hacks : s.acks ≤ 1) (h : s.hear es = some s') : Kept blocks s' := by
  obtain ⟨⟨r, c⟩, htrans, heq⟩ := Option.bind_eq_some_iff.1 h
  obtain ⟨rfl, hcalls', hst, hhas, hsent⟩ := transStep_header hd hw hstage htrans
  cases heq
  unfold Kept
  dsimp only
  rw [hphase, hcalls', hhas, hst, hsent, List.drop_length]
  exact ⟨hcalls, hacks, fun _ => ⟨hdata, rfl⟩⟩

/-- A sender that the receiver does not hear any more. -/
theorem Kept.stopped {c : Ctx} (h : Kept blocks s) (hcalls : c.calls = s.ctx.calls) :
    Kept blocks { s with ctx := c, running := false } := by
  unfold Kept at h ⊢
  dsimp only
  rw [hcalls]
  cases hphase : s.phase with
  | header =>
    rw [hphase] at h
    exact ⟨h.1, h.2.1, fun hrun => by cases hrun⟩
  | block i =>
    rw [hphase] at h
    obtain ⟨hlt, -, hblock⟩ := h
    refine ⟨hlt, fun hrun => (by cases hrun), hblock.imp_left fun hbefore => ?_⟩
    exact ⟨hbefore.1, hbefore.2.1, fun _ => rfl⟩
  | done =>
    rw [hphase] at h
    exact h

/-- **A frame is sent.** -/
theorem kept_send {es : List Event} (h : Kept blocks s) (honce : SendsOnce s (.send es))
    (hs : s.step header blocks (.send es) = some s') : Kept blocks s' := by
  obtain ⟨frame, hframe, hs⟩ := Option.bind_eq_some_iff.1 hs
  cases hphase : s.phase with
  | header =>
    unfold Kept at h
    rw [hphase] at h hframe
    cases hframe
    split at hs
    · rename_i hrun
      obtain ⟨hd, hw⟩ : delivered es = header.frame 0 ∧ .take false ∉ es := by
        by_contra hnot
        rw [if_neg hnot] at hs
        cases hs
      rw [if_pos ⟨hd, hw⟩] at hs
      exact hear_header (s := { s with sent := true }) hphase hd hw (h.2.2 hrun).1 (h.2.2 hrun).2 h.1 h.2.1 hs
    · cases hs
      unfold Kept
      dsimp only
      rw [hphase]
      exact h
  | block i =>
    -- the block has not been sent before
    have hfresh : s.sent = false := honce.resolve_left fun hheader => by rw [hphase] at hheader; cases hheader
    unfold Kept at h
    rw [hphase] at h hframe
    obtain ⟨b, hb, rfl⟩ := Option.map_eq_some_iff.1 hframe
    obtain ⟨hlt, hrun', ⟨hcalls, hacks, -⟩ | ⟨-, -, hsent⟩⟩ := h
    · split at hs
      · rename_i hrun
        obtain ⟨hd, hw⟩ : delivered es = b.frame (BitVec.ofNat 8 (i + 1)) ∧ .take false ∉ es := by
          by_contra hnot
          rw [if_neg hnot] at hs
          cases hs
        rw [if_pos ⟨hd, hw⟩] at hs
        exact hear_block (s := { s with sent := true }) hphase hb hd hw rfl (hrun' hrun).1
          (fun hest => ((hrun' hrun).2 hest).1) hcalls hacks hs
      · rename_i hrun
        cases hs
        unfold Kept
        dsimp only
        rw [hphase]
        exact ⟨hlt, fun hr => absurd hr hrun, .inl ⟨hcalls, hacks, fun _ => Bool.eq_false_iff.2 hrun⟩⟩
    · rw [hfresh] at hsent
      cases hsent
  | done =>
    rw [hphase] at hframe
    cases hframe

/-- **An `ACK` is lost.** -/
theorem kept_lose (h : Kept blocks s) (hs : s.step header blocks .lose = some s') : Kept blocks s' := by
  rw [State.step] at hs
  split at hs
  · cases hs
    unfold Kept at h ⊢
    dsimp only
    cases hphase : s.phase with
    | header =>
      rw [hphase] at h
      exact ⟨h.1, by have := h.2.1; omega, h.2.2⟩
    | block i =>
      rw [hphase] at h
      obtain ⟨hlt, hrun, ⟨hcalls, hacks, hsent⟩ | ⟨hcalls, hacks, hsent⟩⟩ := h
      · exact ⟨hlt, hrun, .inl ⟨hcalls, by omega, hsent⟩⟩
      · exact ⟨hlt, hrun, .inr ⟨hcalls, by omega, hsent⟩⟩
    | done =>
      rw [hphase] at h
      exact ⟨h.1, by have := h.2; omega⟩
  · cases hs

/-- **An `ACK` is heard**, and the sender goes on. -/
theorem kept_ack (h : Kept blocks s) (hs : s.step header blocks .ack = some s') : Kept blocks s' := by
  rw [State.step] at hs
  split at hs
  · rename_i hack
    cases hs
    unfold Kept at h
    cases hphase : s.phase with
    | header =>
      rw [hphase] at h
      obtain ⟨hcalls, hacks, hrun⟩ := h
      unfold Kept Phase.next
      dsimp only
      by_cases hnil : blocks = []
      · rw [if_pos hnil]
        exact ⟨by rw [hcalls, hnil]; rfl, by omega⟩
      · rw [if_neg hnil]
        refine ⟨List.length_pos_iff.2 hnil, fun hr => ⟨(hrun hr).1, fun _ => ⟨rfl, rfl⟩⟩, .inl ⟨?_, by omega, ?_⟩⟩
        · rw [hcalls, List.take_zero]
          rfl
        · intro hsent
          cases hsent
    | block i =>
      rw [hphase] at h
      obtain ⟨hlt, hrun, ⟨-, hacks, -⟩ | ⟨hcalls, hacks, hsent⟩⟩ := h
      · omega
      unfold Kept Phase.next
      dsimp only
      by_cases hmore : i + 1 < blocks.length
      · rw [if_pos hmore]
        refine ⟨hmore, fun hr => ⟨(hrun hr).1, fun hest => ?_⟩, .inl ⟨hcalls, by omega, fun hsent => ?_⟩⟩
        · have := ((hrun hr).2 hest).2
          rw [hsent] at this
          cases this
        · cases hsent
      · rw [if_neg hmore]
        exact ⟨by rw [hcalls, List.take_of_length_le (by omega)], by omega⟩
    | done =>
      rw [hphase] at h
      omega
  · cases hs

/-- **Step lemma.** -/
theorem kept_step (h : Kept blocks s) (honce : SendsOnce s a) (hs : s.step header blocks a = some s') :
    Kept blocks s' := by
  cases a with
  | send es => exact kept_send h honce hs
  | lose => exact kept_lose h hs
  | ack => exact kept_ack h hs
  | wait =>
    rw [State.step] at hs
    split at hs
    · rw [State.hear] at hs
      obtain ⟨⟨r, c⟩, htrans, heq⟩ := Option.bind_eq_some_iff.1 hs
      obtain ⟨rfl, hcalls, hsent⟩ := transStep_wait htrans
      cases heq
      rw [hsent, List.drop_length]
      exact h.stopped hcalls
    · cases hs
  | eot =>
    rw [State.step] at hs
    split at hs
    · rw [State.hear] at hs
      obtain ⟨⟨r, c⟩, htrans, heq⟩ := Option.bind_eq_some_iff.1 hs
      obtain ⟨rfl, hcalls, hsent⟩ := transStep_eot htrans
      cases heq
      rw [hsent, List.drop_length]
      exact h.stopped hcalls
    · cases hs

/-- A block of a short file. -/
def letterBlock : Block := ⟨letter, .inl rfl, 0, by rw [← crc16_eq]; decide +kernel⟩

/-- The block as it arrives, and `on_data` that acknowledges it. -/
def letterArrives (seq : Byte) : List Event :=
  [.read [RYM_CODE_SOH], .read ([seq, ~~~seq] ++ letter ++ [0, 0]), .returned RYM_CODE_ACK]

/-- The header has been accepted. -/
def accepted : State := ⟨transBegin (listening []), true, .header, true, 1⟩

theorem accepted_init : Init accepted := ⟨listening [], rfl, List.length_replicate, rfl, rfl⟩

end Link

end RtThread.Ymodem
