import RtThread.Spec.Sched
import RtThread.Lib.Run
import Mathlib.Data.BitVec
import Mathlib.Data.Int.Notation

/-!
# Commands of an AT client (`components/net/at/src/at_client.c`)

`at_obj_exec_cmd` sends a command and waits for its response, and the parser thread reads lines and puts them into
the response object of the call. `client->lock` admits one call at a time; the calls are those of one caller here.
Caller and parser meet in `client->resp`, `client->resp_status` and the semaphore `resp_notice`; a step is one
access to these or to the response object. The response objects are `R`.

The parser reads any bytes at any time. The functions of the URC table leave the client alone, and
`client->status` is not `AT_STATUS_CLI`. A step is `none` where a null `client->resp` is followed.
-/

namespace RtThread.AtClient

open Sched

abbrev Byte := BitVec 8

/-- Bytes up to the first `'\0'`. -/
def cString (l : List Byte) : List Byte := l.takeWhile (· ≠ 0)

/-- `"\r\n"`, `AT_RESP_END_OK`, `AT_RESP_END_ERROR` and `AT_RESP_END_FAIL`. -/
def cr : Byte := 13

def lf : Byte := 10

def respEndOk : List Byte := [79, 75]

def respEndError : List Byte := [69, 82, 82, 79, 82]

def respEndFail : List Byte := [70, 65, 73, 76]

/-- `at_resp_status_t`. -/
inductive RespStatus
  | ok
  | error
  | timeout
  | buffFull
  deriving DecidableEq

/-- `struct at_response`; `buf_size` is the length of `buf`. -/
structure Response where
  buf : List Byte
  lineNum : ℕ
  lineCounts : ℕ
  timeout : ℤ
  deriving DecidableEq

/-- `at_resp_get_line`, from its `resp_buf` on with `line_num` lines left to the one it is to get. -/
def getLineFrom : ℕ → List Byte → List Byte
  | 0, respBuf => respBuf
  | n + 1, respBuf => getLineFrom n (respBuf.drop ((cString respBuf).length + 1))

/-- `at_resp_get_line`: the buffer from the line on. -/
def atRespGetLine (resp : Response) (respLine : ℕ) : Option (List Byte) :=
  if respLine > resp.lineCounts ∨ respLine = 0 then none else some (getLineFrom (respLine - 1) resp.buf)

/-- `recv_bufsz`, `end_sign` and the prefixes and suffixes of `urc_table`. -/
structure Config where
  recvBufsz : ℕ
  endSign : Byte
  urcTable : List (List Byte × List Byte)

/-- `get_urc_obj`. -/
def getUrcObj (cfg : Config) (buffer : List Byte) : Option (List Byte × List Byte) :=
  cfg.urcTable.find? fun urc =>
    urc.1.length + urc.2.length ≤ buffer.length ∧ urc.1.isPrefixOf buffer ∧ urc.2.isSuffixOf buffer

/-- Where `at_obj_exec_cmd` is; `r` is its response object, if it has one. -/
inductive Caller (R : Type)
  | idle
  /-- at `client->resp_status = AT_RESP_OK`, `client->resp = resp` and `at_vprintfln` -/
  | status (r : Option R)
  | attach (r : Option R)
  | send (r : Option R)
  /-- at `resp->line_counts = 0` -/
  | reset (r : R)
  /-- at `rt_sem_take`, suspended in it, and resumed with `thread->error` -/
  | take (r : R)
  | blocked (r : R)
  | resumed (r : R) (result : Err)
  /-- at `client->resp_status = AT_RESP_TIMEOUT`, and at the test of `resp_status` -/
  | timeout (r : R)
  | test (r : R)
  /-- at `__exit` -/
  | exit (r : Option R) (result : Err)
  deriving DecidableEq

/-- Where `client_parser` is; `line` is `recv_buffer` up to `cur_recv_len`. -/
inductive Parser
  /-- in `at_recv_readline`, at `at_client_getchar` -/
  | read (line : List Byte) (lastCh : Byte) (isFull : Bool)
  /-- at its test of `client->resp`, and at its test of the size -/
  | test (line : List Byte)
  | size (line : List Byte)
  /-- at `memcpy`, and at `resp_status = AT_RESP_BUFF_FULL` -/
  | copy (line : List Byte)
  | full (line : List Byte)
  /-- at the three tests of the result: for `OK`, `ERROR` and `FAIL`, and for the number of lines -/
  | checkResult (line : List Byte)
  | checkLines
  /-- at `resp_status = status`, `line_counts = line_counts`, `client->resp = RT_NULL`, `rt_sem_release`, and behind -/
  | setStatus (status : RespStatus)
  | setLines
  | detach
  | release
  | clear
  deriving DecidableEq

/-- `struct at_client`, the variables of the parser, and the response objects. -/
structure Client (R : Type) where
  respStatus : RespStatus
  resp : Option R
  /-- `resp_notice->value` -/
  value : BitVec 16
  caller : Caller R
  parser : Parser
  respBufLen : ℕ
  lineCounts : ℕ
  obj : R → Response

inductive Act (R : Type)
  /-- `at_obj_exec_cmd` is called, with a response object of some content -/
  | exec (resp : Option (R × Response))
  /-- the call goes on -/
  | caller
  /-- the timer of the suspended caller runs out -/
  | timer
  /-- `at_client_getchar` returns a byte -/
  | getchar (ch : Byte)
  /-- the parser goes on -/
  | parser
  deriving DecidableEq

/-- A client that has been initialized. -/
def Client.Init {R : Type} (s : Client R) : Prop :=
  s.respStatus = .ok ∧ s.resp = none ∧ s.value = 0 ∧ s.caller = .idle ∧ s.parser = .read [] 0 false ∧
    s.respBufLen = 0 ∧ s.lineCounts = 0

/-- What is copied of a line: `'\0'` stands for its last byte. -/
def stored (line : List Byte) : List Byte := line.dropLast ++ [0]

/-- `memcmp(.., AT_RESP_END_OK, ..) == 0`. -/
def isOk (line : List Byte) : Bool := respEndOk.isPrefixOf (stored line)

/-- `strstr(.., AT_RESP_END_ERROR) || memcmp(.., AT_RESP_END_FAIL, ..) == 0`. -/
def isError (line : List Byte) : Bool :=
  decide (respEndError <:+: cString (stored line)) || respEndFail.isPrefixOf (stored line)

/-- `at_recv_readline` ends with the byte `ch`. -/
def endsLine (cfg : Config) (line : List Byte) (lastCh ch : Byte) : Bool :=
  ch = lf ∧ lastCh = cr ∨ cfg.endSign ≠ 0 ∧ ch = cfg.endSign ∨ (getUrcObj cfg line).isSome

namespace Client

variable {R : Type} [DecidableEq R] (s : Client R)

/-- `at_recv_readline` with one byte more, and `get_urc_obj` behind it. -/
def readline (cfg : Config) (line : List Byte) (lastCh : Byte) (isFull : Bool) (ch : Byte) : Parser :=
  let (line, isFull) := if line.length < cfg.recvBufsz then (line ++ [ch], isFull) else (line, true)
  if endsLine cfg line lastCh ch = true then
    if isFull = true ∨ (getUrcObj cfg line).isSome then .read [] 0 false else .test line
  else .read line ch isFull

/-- `rt_sem_release(client->resp_notice)`. -/
def semRelease : Client R :=
  match s.caller with
  | .blocked r => { s with caller := .resumed r .eok }
  | _ => { s with value := s.value + 1#16 }

/-- The call goes on. -/
def callerStep : Option (Client R) :=
  match s.caller with
  | .idle | .blocked _ => none
  | .status r => some { s with respStatus := .ok, caller := .attach r }
  | .attach r => some { s with resp := r, caller := .send r }
  | .send none => some { s with caller := .exit none .eok }
  | .send (some r) => some { s with caller := .reset r }
  | .reset r => some { s with obj := Function.update s.obj r { s.obj r with lineCounts := 0 }, caller := .take r }
  | .take r =>
    if s.value ≠ 0#16 then some { s with value := s.value - 1#16, caller := .test r }
    else if (s.obj r).timeout = 0 then some { s with caller := .timeout r }
    else some { s with caller := .blocked r }
  | .resumed r result => some { s with caller := if result = .eok then .test r else .timeout r }
  | .timeout r => some { s with respStatus := .timeout, caller := .exit (some r) .etimeout }
  | .test r => some { s with caller := .exit (some r) (if s.respStatus = .ok then .eok else .error) }
  | .exit _ _ => some { s with resp := none, caller := .idle }

/-- The parser goes on behind `at_recv_readline`. -/
def parserStep : Option (Client R) :=
  match s.parser with
  | .read .. => none
  | .test line => some { s with parser := if s.resp = none then .read [] 0 false else .size line }
  | .size line => s.resp.map fun r =>
    { s with parser := if s.respBufLen + line.length < (s.obj r).buf.length then .copy line else .full line }
  | .copy line => s.resp.bind fun r =>
    let buf := (s.obj r).buf
    if s.respBufLen + line.length ≤ buf.length then
      some { s with
        obj := Function.update s.obj r { s.obj r with
          buf := buf.take s.respBufLen ++ stored line ++ buf.drop (s.respBufLen + line.length) }
        respBufLen := s.respBufLen + line.length
        lineCounts := s.lineCounts + 1
        parser := .checkResult line }
    else none
  | .full line => some { s with respStatus := .buffFull, parser := .checkResult line }
  | .checkResult line =>
    if isOk line = true then s.resp.map fun r =>
      { s with parser := if (s.obj r).lineNum = 0 then .setStatus .ok
          else if isError line = true then .setStatus .error else .checkLines }
    else some { s with parser := if isError line = true then .setStatus .error else .checkLines }
  | .checkLines => s.resp.map fun r =>
    { s with parser :=
        if s.lineCounts = (s.obj r).lineNum ∧ (s.obj r).lineNum ≠ 0 then .setStatus .ok else .read [] 0 false }
  | .setStatus status => some { s with respStatus := status, parser := .setLines }
  | .setLines => s.resp.map fun r =>
    { s with obj := Function.update s.obj r { s.obj r with lineCounts := s.lineCounts }, parser := .detach }
  | .detach => some { s with resp := none, parser := .release }
  | .release => some { s.semRelease with parser := .clear }
  | .clear => some { s with respBufLen := 0, lineCounts := 0, parser := .read [] 0 false }

def step (cfg : Config) : Act R → Option (Client R)
  | .exec resp =>
    if s.caller = .idle then
      match resp with
      | none => some { s with caller := .status none }
      | some (r, resp) => some { s with obj := Function.update s.obj r resp, caller := .status (some r) }
    else none
  | .caller => s.callerStep
  | .timer =>
    match s.caller with
    | .blocked r => if 0 < (s.obj r).timeout then some { s with caller := .resumed r .etimeout } else none
    | _ => none
  | .getchar ch =>
    match s.parser with
    | .read line lastCh isFull => some { s with parser := readline cfg line lastCh isFull ch }
    | _ => none
  | .parser => s.parserStep

end Client

/-! ## What was received -/

/-- The bytes of the line that the parser reads, and the lines but for URCs since the last command was sent. -/
structure Log where
  line : List Byte
  lines : List (List Byte)
  deriving DecidableEq

variable {R : Type} [DecidableEq R]

def log (cfg : Config) (s : Client R) (a : Act R) (_ : Client R) (g : Log) : Log :=
  match a with
  | .caller =>
    match s.caller with
    | .send _ => { g with lines := [] }
    | _ => g
  | .getchar ch =>
    match s.parser with
    | .read line lastCh _ =>
      let buffer := if line.length < cfg.recvBufsz then line ++ [ch] else line
      if endsLine cfg buffer lastCh ch = false then { g with line := g.line ++ [ch] }
      else if (getUrcObj cfg buffer).isSome then { g with line := [] }
      else ⟨[], g.lines ++ [g.line ++ [ch]]⟩
    | _ => g
  | _ => g

/-- The runs of a client whose steps all satisfy `ok`. -/
abbrev Runs (cfg : Config) (ok : Client R → Act R → Prop) : Client R × Log → Prop :=
  Run.Reach (fun p => p.1.Init ∧ p.2 = ⟨[], []⟩) (Run.Logged (fun s a s' => s.step cfg a = some s') (log cfg))
    (fun p a => ok p.1 a)

/-- The line ends a response of which it is the `count`-th line. -/
def Ends (lineNum count : ℕ) (line : List Byte) : Prop :=
  isOk line = true ∧ lineNum = 0 ∨ isError line = true ∨ count = lineNum ∧ lineNum ≠ 0

instance (lineNum count : ℕ) (line : List Byte) : Decidable (Ends lineNum count line) := by
  unfold Ends
  infer_instance

/-- The lines up to the first that ends the response, behind `n` lines of it. -/
def response (lineNum : ℕ) : ℕ → List (List Byte) → Option (List (List Byte))
  | _, [] => none
  | n, line :: lines =>
    if Ends lineNum (n + 1) line then some [line] else (response lineNum (n + 1) lines).map (line :: ·)

/-- **The object holds the response**: its buffer begins with the lines received since the command was sent up to
the one that ends the response, each with `'\0'` for its last byte; `line_counts` is their number; and
`at_resp_get_line` gets each of them. -/
def Holds (resp : Response) (lines : List (List Byte)) : Prop :=
  ∃ ls, response resp.lineNum 0 lines = some ls ∧ ls.flatMap stored <+: resp.buf ∧ resp.lineCounts = ls.length ∧
    ∀ k, (atRespGetLine resp k).map cString = if k = 0 then none else (ls[k - 1]?).map List.dropLast

/-- What the steps find. The command is sent with `client->resp` set, `resp_status` as the call has set it, no
token in `resp_notice`, and the parser in `at_recv_readline` with its variables 0 or about to clear them. As long as
`resp_status` is `AT_RESP_OK`, the call clears `line_counts` before the parser sets it, and the parser does not drop a
line that is too long for `recv_buffer` while `client->resp` is set and copies no line that holds a `'\0'`. The parser
does not write `AT_RESP_OK` over `AT_RESP_BUFF_FULL`. -/
def KeepsResponse (cfg : Config) (s : Client R) : Act R → Prop
  | .caller =>
    match s.caller with
    | .send (some r) =>
      s.resp = some r ∧ s.respStatus = .ok ∧ s.value = 0#16 ∧
        match s.parser with
        | .read .. => s.respBufLen = 0 ∧ s.lineCounts = 0
        | .clear => True
        | _ => False
    | .reset _ => s.respStatus = .ok → s.resp ≠ none ∧ s.parser ≠ .detach
    | _ => True
  | .getchar ch =>
    match s.parser with
    | .read line lastCh isFull =>
      (s.resp = none ∨ s.respStatus ≠ .ok) ∨ (isFull = false ∧ line.length < cfg.recvBufsz) ∨
        endsLine cfg line lastCh ch = false ∨ (getUrcObj cfg line).isSome
    | _ => True
  | .parser =>
    match s.parser with
    | .copy line => s.respStatus = .ok → 0 ∉ line.dropLast
    | .setStatus status => status = .ok → s.respStatus ≠ .buffFull
    | _ => True
  | _ => True

instance (cfg : Config) (s : Client R) (a : Act R) : Decidable (KeepsResponse cfg s a) := by
  unfold KeepsResponse
  split
  · split <;> (try split) <;> infer_instance
  · split <;> infer_instance
  · split <;> infer_instance
  · infer_instance

end RtThread.AtClient
