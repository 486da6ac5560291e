import RtThread.Lib.Segments
import RtThread.Spec.AtClient

/-!
# Lines of an AT client (`at_recv_readline` of `at_client.c`)

`at_client_getchar` gives the bytes in the order in which they have been received, and waits where there are no more.
A write that is not in `recv_buffer` makes a call `none`.
-/

namespace RtThread.AtReadline

open AtClient Segments

def RT_EFULL : ℤ := 3

/-- The line and its length in `struct at_client`; `rt_calloc` gives the buffer `recv_bufsz` bytes. -/
structure Client (cfg : Config) where
  recvBuffer : List Byte
  size : recvBuffer.length = cfg.recvBufsz
  curRecvLen : ℕ

/-- The variables of `at_recv_readline`. -/
structure Reader (cfg : Config) where
  client : Client cfg
  readLen : ℕ
  lastCh : Byte
  isFull : Bool

/-- What becomes of a call on a stream: it returns, with what is left of the stream, or it waits for more. -/
inductive Outcome (cfg : Config)
  | returns (result : ℤ) (client : Client cfg) (rest : List Byte)
  | waits

variable {cfg : Config}

/-- `memset(client->recv_buffer, 0x00, client->recv_bufsz)` and `client->cur_recv_len = 0`. -/
def cleared (cfg : Config) : Client cfg := ⟨List.replicate cfg.recvBufsz 0, List.length_replicate, 0⟩

/-- `client->recv_buffer[i] = ch` and `client->cur_recv_len = i + 1`. -/
def Client.store (client : Client cfg) (i : ℕ) (ch : Byte) : Option (Client cfg) :=
  if i < client.recvBuffer.length then some ⟨client.recvBuffer.set i ch, List.length_set.trans client.size, i + 1⟩
  else none

/-- A length as an `int`. -/
def toInt (n : ℕ) : ℤ := (BitVec.ofNat 32 n).toInt

namespace Reader

/-- A byte is stored, unless the buffer is full. -/
def put (r : Reader cfg) (ch : Byte) : Option (Reader cfg) :=
  if r.readLen < cfg.recvBufsz then
    (r.client.store r.readLen ch).map fun client => { r with client, readLen := r.readLen + 1 }
  else some { r with isFull := true }

/-- Whether the byte ends the line; `get_urc_obj` looks at what has been stored. -/
def atEnd (r : Reader cfg) (ch : Byte) : Bool :=
  endsLine cfg (r.client.recvBuffer.take r.client.curRecvLen) r.lastCh ch

/-- The loop, on the stream. -/
def loop : List Byte → Reader cfg → Option (Outcome cfg)
  | [], _ => some .waits
  | ch :: stream, r =>
    match r.put ch with
    | none => none
    | some r =>
      if r.atEnd ch = true then
        if r.isFull = true then some (.returns (-RT_EFULL) (cleared cfg) stream)
        else some (.returns (toInt r.readLen) r.client stream)
      else loop stream { r with lastCh := ch }

end Reader

/-- `at_recv_readline`, on what has been received. -/
def atRecvReadline (cfg : Config) (stream : List Byte) : Option (Outcome cfg) :=
  Reader.loop stream ⟨cleared cfg, 0, 0, false⟩

/-- The call number `n`, of calls one after the other. -/
def readline (cfg : Config) : ℕ → List Byte → Option (Outcome cfg)
  | 0, stream => atRecvReadline cfg stream
  | n + 1, stream =>
    match atRecvReadline cfg stream with
    | some (.returns _ _ rest) => readline cfg n rest
    | outcome => outcome

/-- No URC table, and no sign at the end of a line. -/
def plain (recvBufsz : ℕ) : Config := ⟨recvBufsz, 0, []⟩

/-- A line ends with CR LF. -/
def crLf : List Byte := [cr, lf]

/-- **A segment is returned**: its length, as an `int`, and the segment in the buffer, behind which it is zero, if it
fits; and otherwise `-RT_EFULL`. -/
def Delivers (cfg : Config) (seg rest : List Byte) : Outcome cfg → Prop
  | .returns result client left =>
    left = rest ∧
      if seg.length ≤ cfg.recvBufsz then
        result = toInt seg.length ∧ client.curRecvLen = seg.length ∧
          client.recvBuffer = seg ++ List.replicate (cfg.recvBufsz - seg.length) 0
      else result = -RT_EFULL
  | .waits => False

end RtThread.AtReadline
