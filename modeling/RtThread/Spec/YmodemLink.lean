import RtThread.Spec.Ymodem

/-!
# A YMODEM transfer over a link that loses acknowledgements

The sender numbers its blocks from one on, modulo 256, and sends a block, perhaps again, until it hears an `ACK`. The
receiver is the loop of `_rym_do_trans`, from the accepted header on. Frames arrive as they were sent, in any pieces;
an `ACK` on its way may be lost. A step is one frame, one loss, one `ACK` heard, or the end of a wait of the receiver.
-/

namespace RtThread.Ymodem

/-- A block of a file, with its CRC. -/
structure Block where
  payload : List Byte
  size : payload.length = 128 ∨ payload.length = 1024
  crc : BitVec 16
  crc_eq : crc = xmodemCrc payload

/-- The bytes of a block with a number. -/
def Block.frame (b : Block) (seq : Byte) : List Byte :=
  (if b.payload.length = 128 then RYM_CODE_SOH else RYM_CODE_STX) ::
    seq :: ~~~seq :: (b.payload ++ [(b.crc >>> 8).setWidth 8, b.crc.setWidth 8])

namespace Link

/-- What the sender waits for an `ACK` of. -/
inductive Phase
  | header
  | block (i : ℕ)
  | done
  deriving DecidableEq

/-- A transfer. -/
structure State where
  /-- the receiver, and whether it is in its loop -/
  ctx : Ctx
  running : Bool
  phase : Phase
  /-- the block of this phase has been sent -/
  sent : Bool
  /-- the `ACK`s on their way -/
  acks : ℕ
  deriving DecidableEq

inductive Act
  /-- the block of this phase, which arrives in these pieces, and what the callback returns -/
  | send (es : List Event)
  | lose
  | ack
  /-- the wait of the receiver ends -/
  | wait
  | eot
  deriving DecidableEq

variable (header : Block) (blocks : List Block)

def Phase.frame : Phase → Option (List Byte)
  | .header => some (header.frame 0)
  | .block i => (blocks[i]?).map fun b => b.frame (BitVec.ofNat 8 (i + 1))
  | .done => none

def Phase.next : Phase → Phase
  | .header => if blocks = [] then .done else .block 0
  | .block i => if i + 1 < blocks.length then .block (i + 1) else .done
  | .done => .done

/-- Whether the loop of `_rym_do_trans` goes on. -/
def goesOn : Except RymErr Bool → Bool
  | .ok goOn => goOn
  | .error _ => false

/-- The receiver takes what arrives, once through its loop. -/
def State.hear (s : State) (es : List Event) : Option State := do
  let (r, c) ← transStep { s.ctx with events := es }
  some { s with
    ctx := c
    running := goesOn r
    acks := s.acks + (c.sent.drop s.ctx.sent.length).count RYM_CODE_ACK }

def State.step (s : State) : Act → Option State
  | .send es => do
    let frame ← s.phase.frame header blocks
    if s.running then
      if delivered es = frame ∧ .take false ∉ es then State.hear { s with sent := true } es else none
    else some { s with sent := true }
  | .lose => if 0 < s.acks then some { s with acks := s.acks - 1 } else none
  | .ack =>
    if 0 < s.acks ∧ s.sent then
      some { s with acks := s.acks - 1, phase := s.phase.next blocks, sent := false }
    else none
  | .wait => if s.running then s.hear [.read [], .take false] else none
  | .eot => if s.running ∧ s.phase = .done then s.hear [.read [RYM_CODE_EOT]] else none

/-- The header has been accepted, and `_rym_do_trans` has begun. -/
def Init (s : State) : Prop :=
  ∃ c : Ctx, c.hasData = true ∧ c.buf.length = RYM_STX_PKG_SZ ∧ c.calls = [] ∧
    s = ⟨transBegin c, true, .header, true, 1⟩

/-- The payloads that `on_data` has seen. -/
def payloads (calls : List Call) : List (List Byte) :=
  calls.filterMap fun
    | .onData data => some data
    | _ => none

/-- **Exactly once, in order**: the payloads are a beginning of the blocks, and all of them when the sender is done. -/
def InOrder (s : State) : Prop :=
  payloads s.ctx.calls <+: blocks.map (·.payload) ∧
    (s.phase = .done → payloads s.ctx.calls = blocks.map (·.payload))

/-- A data block is not sent again. -/
def SendsOnce (s : State) : Act → Prop
  | .send _ => s.phase = .header ∨ s.sent = false
  | _ => True

instance (s : State) : (a : Act) → Decidable (SendsOnce s a)
  | .send _ => inferInstanceAs (Decidable (s.phase = .header ∨ s.sent = false))
  | .lose | .ack | .wait | .eot => isTrue trivial

end Link

end RtThread.Ymodem
