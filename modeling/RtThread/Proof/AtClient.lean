import RtThread.Spec.AtClient

/-!
# Command and response of an AT client

* `getLineFrom_eq`: `at_resp_get_line` on lines without a `'\0'`.
* `holds_of_copied`: what the parser has copied is the response.
* `active_parse`, `released_parse`, `over_parse`: what the parser does while a call waits, at the end of its response
  and behind it.
* `getchar_cases`: what a byte does.
* `Kept`, `kept_step`: where the call is, and what the parser has for it.
* `response_exact`: a call that returns `RT_EOK` has the response to its command, in every run whose steps find what
  they need.
* `response_incomplete`: a line does not fit, and `AT_RESP_OK` is written over `AT_RESP_BUFF_FULL`.
-/

namespace RtThread.AtClient

open Sched

variable {R : Type} [DecidableEq R] {cfg : Config} {s s' : Client R} {g : Log} {a : Act R} {r : R}
  {lines pre ls : List (List Byte)} {line : List Byte} {lineNum n : ℕ} {ch : Byte}

/-! ## Lines -/

theorem stored_length (h : line ≠ []) : (stored line).length = line.length := by
  have hpos := List.length_pos_iff.2 h
  rw [stored, List.length_append, List.length_dropLast, List.length_singleton]
  omega

/-- The line as a string, up to its `'\0'`. -/
theorem cString_stored (h : 0 ∉ line.dropLast) (t : List Byte) : cString (stored line ++ t) = line.dropLast := by
  have hall : ∀ b ∈ line.dropLast, decide (b ≠ 0) = true := by
    intro b hb
    refine decide_eq_true ?_
    rintro rfl
    exact h hb
  rw [cString, stored, List.append_assoc, List.takeWhile_append_of_pos hall]
  simp

/-- **`at_resp_get_line`** steps over one line after the other. -/
theorem getLineFrom_eq (hnul : ∀ l ∈ ls, 0 ∉ l.dropLast) (t : List Byte) (hn : n ≤ ls.length) :
    getLineFrom n (ls.flatMap stored ++ t) = (ls.drop n).flatMap stored ++ t := by
  induction n generalizing ls with
  | zero => rfl
  | succ n ih =>
    cases ls with
    | nil => cases hn
    | cons l ls =>
      have hl : 0 ∉ l.dropLast := hnul l List.mem_cons_self
      have hlen : (cString (stored l ++ (ls.flatMap stored ++ t))).length + 1 = (stored l).length := by
        rw [cString_stored hl, stored, List.length_append, List.length_singleton]
      rw [getLineFrom, List.flatMap_cons, List.append_assoc, hlen, List.drop_left, List.drop_succ_cons]
      exact ih (fun l' hl' => hnul l' (List.mem_cons_of_mem l hl')) (Nat.le_of_succ_le_succ hn)

/-! ## Responses -/

/-- More lines do not change a response. -/
theorem response_append (h : response lineNum n lines = some ls) (more : List (List Byte)) :
    response lineNum n (lines ++ more) = some ls := by
  induction lines generalizing n ls with
  | nil => cases h
  | cons l lines ih =>
    rw [List.cons_append]
    unfold response at h ⊢
    split at h
    · rename_i hends
      rw [if_pos hends]
      exact h
    · rename_i hends
      rw [if_neg hends]
      obtain ⟨ls', hls', rfl⟩ := Option.map_eq_some_iff.1 h
      rw [ih hls', Option.map_some]

/-- A line ends the response, or does not. -/
theorem response_snoc (h : response lineNum n pre = none) (line : List Byte) :
    response lineNum n (pre ++ [line]) =
      if Ends lineNum (n + pre.length + 1) line then some (pre ++ [line]) else none := by
  induction pre generalizing n with
  | nil =>
    rw [List.nil_append, List.length_nil, Nat.add_zero]
    unfold response
    rfl
  | cons l pre ih =>
    rw [List.cons_append]
    unfold response at h ⊢
    split at h
    · cases h
    · rename_i hends
      rw [if_neg hends, ih (Option.map_eq_none_iff.1 h), List.length_cons,
        show n + 1 + pre.length + 1 = n + (pre.length + 1) + 1 by omega]
      split <;> rfl

/-- The parser has copied the lines, and counted them in `resp_buf_len` and `line_counts`. -/
structure Has (respBufLen lineCounts : ℕ) (buf : List Byte) (ls : List (List Byte)) : Prop where
  respBufLen : respBufLen = (ls.flatMap stored).length
  lineCounts : lineCounts = ls.length
  buf : ls.flatMap stored <+: buf
  nul : ∀ l ∈ ls, 0 ∉ l.dropLast

theorem Has.empty (buf : List Byte) : Has 0 0 buf [] := ⟨rfl, rfl, List.nil_prefix, fun _ hl => by cases hl⟩

/-- The parser puts a line behind the others. -/
theorem Has.copy {len counts : ℕ} {buf : List Byte} (h : Has len counts buf ls) (hline : line ≠ [])
    (hnul : 0 ∉ line.dropLast) (rest : List Byte) :
    Has (len + line.length) (counts + 1) (buf.take len ++ stored line ++ rest) (ls ++ [line]) := by
  have hflat : (ls ++ [line]).flatMap stored = ls.flatMap stored ++ stored line := by
    rw [List.flatMap_append, List.flatMap_cons, List.flatMap_nil, List.append_nil]
  have htake : buf.take len = ls.flatMap stored := by
    rw [h.respBufLen]
    exact (List.prefix_iff_eq_take.1 h.buf).symm
  refine ⟨?_, ?_, ?_, fun l hl => ?_⟩
  · rw [hflat, List.length_append, stored_length hline, h.respBufLen]
  · rw [h.lineCounts, List.length_append, List.length_singleton]
  · rw [hflat, htake]
    exact List.prefix_append _ _
  · rcases List.mem_append.1 hl with hl | hl
    · exact h.nul l hl
    · rw [List.mem_singleton.1 hl]
      exact hnul

/-- **What the parser has copied is the response**, once `line_counts` is set. -/
theorem holds_of_copied {resp : Response} (hbuf : ls.flatMap stored <+: resp.buf) (hcounts : resp.lineCounts = ls.length)
    (hnul : ∀ l ∈ ls, 0 ∉ l.dropLast) (hresponse : response resp.lineNum 0 lines = some ls) : Holds resp lines := by
  refine ⟨ls, hresponse, hbuf, hcounts, fun k => ?_⟩
  obtain ⟨t, ht⟩ := hbuf
  unfold atRespGetLine
  rw [hcounts]
  cases k with
  | zero => simp
  | succ k =>
    rw [if_neg (Nat.succ_ne_zero k), Nat.add_sub_cancel]
    by_cases hk : k < ls.length
    · rw [if_neg (by omega), ← ht, getLineFrom_eq hnul t hk.le, List.drop_eq_getElem_cons hk, List.flatMap_cons,
        List.append_assoc, Option.map_some, cString_stored (hnul _ (List.getElem_mem hk)), List.getElem?_eq_getElem hk,
        Option.map_some]
    · rw [if_pos (by omega), List.getElem?_eq_none (by omega), Option.map_none, Option.map_none]

/-- More lines do not change what the object holds. -/
theorem Holds.append {resp : Response} (h : Holds resp lines) (more : List (List Byte)) : Holds resp (lines ++ more) := by
  obtain ⟨ls, hresponse, hrest⟩ := h
  exact ⟨ls, response_append hresponse more, hrest⟩

/-! ## A call that waits -/

/-- The parser has copied the lines into the object. -/
def Client.Has (s : Client R) (r : R) (ls : List (List Byte)) : Prop :=
  AtClient.Has s.respBufLen s.lineCounts (s.obj r).buf ls

/-- The parser has copied the lines, which do not end the response; or it has dropped one. -/
def Copied (s : Client R) (r : R) (ls : List (List Byte)) : Prop :=
  s.respStatus = .buffFull ∨ s.respStatus = .ok ∧ s.Has r ls ∧ response (s.obj r).lineNum 0 ls = none

/-- The call fails, or its object holds the response. -/
def Result (s : Client R) (g : Log) (r : R) : Prop := s.respStatus ≠ .ok ∨ Holds (s.obj r) g.lines

/-- What the parser has for a call that waits. -/
def Parsing (s : Client R) (g : Log) (r : R) : Parser → Prop
  | .read .. => Copied s r g.lines
  | .test line | .size line | .copy line => ∃ ls, g.lines = ls ++ [line] ∧ line ≠ [] ∧ Copied s r ls
  | .full _ => True
  | .checkResult line => s.respStatus = .buffFull ∨ s.respStatus = .ok ∧ s.Has r g.lines ∧
      ∃ ls, g.lines = ls ++ [line] ∧ response (s.obj r).lineNum 0 ls = none
  | .checkLines => s.respStatus = .buffFull ∨ s.respStatus = .ok ∧ s.Has r g.lines ∧
      response (s.obj r).lineNum 0 g.lines =
        if g.lines.length = (s.obj r).lineNum ∧ (s.obj r).lineNum ≠ 0 then some g.lines else none
  | .setStatus status => status = .ok → s.respStatus = .buffFull ∨
      s.Has r g.lines ∧ response (s.obj r).lineNum 0 g.lines = some g.lines
  | .setLines => s.respStatus ≠ .ok ∨ s.Has r g.lines ∧ response (s.obj r).lineNum 0 g.lines = some g.lines
  | .detach => Result s g r
  | .release => False
  | .clear => s.respStatus = .ok ∧ g.lines = []

/-- The response is not complete yet. -/
structure Active (s : Client R) (g : Log) (r : R) : Prop where
  resp : s.resp = some r
  value : s.value = 0#16
  parsing : Parsing s g r s.parser

/-- The parser is about to release `resp_notice`. -/
structure Released (s : Client R) (g : Log) (r : R) : Prop where
  resp : s.resp = none
  value : s.value = 0#16
  result : Result s g r
  parser : s.parser = .release

/-- The parser is in no response. -/
def Parser.Quiet : Parser → Prop
  | .read .. | .test _ | .clear => True
  | _ => False

/-- The parser is done with the response. -/
structure Over (s : Client R) (g : Log) (r : R) : Prop where
  resp : s.resp = none
  result : Result s g r
  quiet : s.parser.Quiet

omit [DecidableEq R] in
theorem eq_of_map {f : R → Client R} (hresp : s.resp = some r) (h : s.resp.map f = some s') : f r = s' := by
  rw [hresp] at h
  exact Option.some.inj h

/-- The line counts, or is the last of as many as the object asks for. -/
theorem ends_iff (hok : isOk line = true → lineNum ≠ 0) (herror : isError line ≠ true) :
    Ends lineNum n line ↔ n = lineNum ∧ lineNum ≠ 0 := by
  constructor
  · rintro (⟨h, hzero⟩ | h | h)
    · exact absurd hzero (hok h)
    · exact absurd h herror
    · exact h
  · exact fun h => .inr (.inr h)

omit [DecidableEq R] in
/-- The tests of the result find whether the line ends the response. -/
theorem parsing_checked (h : Parsing s g r (.checkResult line)) :
    (isOk line = true → (s.obj r).lineNum = 0 → Parsing s g r (.setStatus .ok)) ∧ Parsing s g r (.setStatus .error) ∧
      ((isOk line = true → (s.obj r).lineNum ≠ 0) → isError line ≠ true → Parsing s g r .checkLines) := by
  have herr : Parsing s g r (.setStatus .error) := fun herr => by cases herr
  rcases h with hfull | ⟨hstatus, hhas, ls, hlines, hnone⟩
  · exact ⟨fun _ _ _ => .inl hfull, herr, fun _ _ => .inl hfull⟩
  have hcount : g.lines.length = 0 + ls.length + 1 := by
    rw [hlines, List.length_append, List.length_singleton, Nat.zero_add]
  have hresponse := response_snoc hnone line
  rw [← hlines, ← hcount] at hresponse
  refine ⟨fun hok hzero _ => .inr ⟨hhas, ?_⟩, herr, fun hok herror => .inr ⟨hstatus, hhas, ?_⟩⟩
  · rw [hresponse, if_pos (.inl ⟨hok, hzero⟩)]
  · rw [hresponse]
    exact if_congr (ends_iff hok herror) rfl rfl

/-- **The parser works on the response** of the call that waits, or is done with it. -/
theorem active_parse (hk : KeepsResponse cfg s .parser) (h : Active s g r) (hs : s.parserStep = some s') :
    Active s' g r ∨ Released s' g r := by
  obtain ⟨hresp, hvalue, hparsing⟩ := h
  rw [Client.parserStep] at hs
  rw [KeepsResponse] at hk
  cases hp : s.parser <;> rw [hp] at hs hparsing hk <;> dsimp only at hs
  case read => cases hs
  case test line =>
    -- `client->resp` is set
    rw [if_neg (by rw [hresp]; exact Option.some_ne_none r)] at hs
    cases hs
    exact .inl ⟨hresp, hvalue, hparsing⟩
  case size line =>
    cases eq_of_map hresp hs
    refine .inl ⟨hresp, hvalue, ?_⟩
    by_cases hsize : s.respBufLen + line.length < (s.obj r).buf.length
    · simp only [hsize]
      exact hparsing
    · simp only [hsize]
      trivial
  case copy line =>
    obtain ⟨r', hr', hs⟩ := Option.bind_eq_some_iff.1 hs
    cases hr'.symm.trans hresp
    obtain ⟨ls, hlines, hline, hcopied⟩ := hparsing
    split_ifs at hs
    cases hs
    refine .inl ⟨hresp, hvalue, hcopied.imp_right fun hcopied => ?_⟩
    obtain ⟨hok, hhas, hnone⟩ := hcopied
    refine ⟨hok, ?_, ls, hlines, ?_⟩
    · simp only [Client.Has, Function.update_self, hlines]
      exact hhas.copy hline (hk hok) _
    · simpa using hnone
  case full line =>
    cases hs
    exact .inl ⟨hresp, hvalue, .inl rfl⟩
  case checkResult line =>
    obtain ⟨hends, herr, hmore⟩ := parsing_checked hparsing
    by_cases hok : isOk line = true
    · rw [if_pos hok] at hs
      cases eq_of_map hresp hs
      refine .inl ⟨hresp, hvalue, ?_⟩
      dsimp only
      split_ifs with hzero herror
      · exact hends hok hzero
      · exact herr
      · exact hmore (fun _ => hzero) herror
    · rw [if_neg hok] at hs
      cases hs
      refine .inl ⟨hresp, hvalue, ?_⟩
      dsimp only
      split_ifs with herror
      · exact herr
      · exact hmore (fun h => absurd h hok) herror
  case checkLines =>
    cases eq_of_map hresp hs
    refine .inl ⟨hresp, hvalue, ?_⟩
    dsimp only
    rcases hparsing with hfull | ⟨hstatus, hhas, hresponse⟩
    · split_ifs
      · exact fun _ => .inl hfull
      · exact .inl hfull
    · rw [← hhas.lineCounts] at hresponse
      split_ifs at hresponse ⊢
      · exact fun _ => .inr ⟨hhas, hresponse⟩
      · exact .inr ⟨hstatus, hhas, hresponse⟩
  case setStatus status =>
    cases hs
    refine .inl ⟨hresp, hvalue, ?_⟩
    by_cases hok : status = .ok
    · exact .inr ((hparsing hok).resolve_left (hk hok))
    · exact .inl hok
  case setLines =>
    cases eq_of_map hresp hs
    refine .inl ⟨hresp, hvalue, ?_⟩
    refine hparsing.imp_right fun hhas => ?_
    obtain ⟨hhas, hresponse⟩ := hhas
    simp only [Function.update_self]
    exact holds_of_copied hhas.buf hhas.lineCounts hhas.nul hresponse
  case detach =>
    cases hs
    exact .inr ⟨rfl, hvalue, hparsing, rfl⟩
  case release => exact hparsing.elim
  case clear =>
    cases hs
    obtain ⟨hstatus, hlines⟩ := hparsing
    refine .inl ⟨hresp, hvalue, ?_⟩
    show Copied _ r g.lines
    rw [hlines]
    exact .inr ⟨hstatus, .empty _, rfl⟩

/-- The parser does nothing to a response that is over. -/
theorem over_parse (h : Over s g r) (hs : s.parserStep = some s') :
    s'.value = s.value ∧ s'.respStatus = s.respStatus ∧ Over s' g r := by
  obtain ⟨hresp, hresult, hquiet⟩ := h
  rw [Client.parserStep] at hs
  cases hp : s.parser <;> rw [hp] at hs hquiet <;> dsimp only at hs
  case read => cases hs
  case test line =>
    rw [if_pos hresp] at hs
    cases hs
    exact ⟨rfl, rfl, hresp, hresult, trivial⟩
  case clear =>
    cases hs
    exact ⟨rfl, rfl, hresp, hresult, trivial⟩
  all_goals exact hquiet.elim

/-- The parser leaves the call alone, but for waking it up. -/
theorem parser_caller (hblocked : s.parser = .release → ∀ r, s.caller ≠ .blocked r) (hs : s.parserStep = some s') :
    s'.caller = s.caller := by
  rw [Client.parserStep] at hs
  split at hs <;> grind [Client.semRelease, Option.map_eq_some_iff, Option.bind_eq_some_iff]

/-- **The parser ends the response**: it releases `resp_notice`. -/
theorem released_parse (h : Released s g r) (hs : s.parserStep = some s') :
    Over s' g r ∧ ((∀ r, s.caller ≠ .blocked r) → s'.value = 1#16) ∧
      ∀ r, s.caller = .blocked r → s'.caller = .resumed r .eok := by
  obtain ⟨hresp, hvalue, hresult, hp⟩ := h
  rw [Client.parserStep, hp] at hs
  cases hs
  unfold Client.semRelease
  split
  · rename_i r' hcaller
    refine ⟨⟨hresp, hresult, trivial⟩, fun hblocked => absurd hcaller (hblocked r'), fun r hr => ?_⟩
    cases hcaller.symm.trans hr
    rfl
  · rename_i hblocked
    refine ⟨⟨hresp, hresult, trivial⟩, fun _ => ?_, fun r hr => absurd hr (hblocked r)⟩
    show s.value + 1#16 = 1#16
    rw [hvalue]
    rfl

/-! ## Bytes -/

/-- The bytes of the line that are in `recv_buffer`: all, or more than it has room for have come. -/
def Raw (cfg : Config) (g : Log) : Parser → Prop
  | .read line _ isFull => (isFull = false → line = g.line) ∧ (isFull = true → cfg.recvBufsz ≤ line.length)
  | _ => g.line = []

/-- `at_recv_readline` starts with an empty line. -/
theorem parser_read {lastCh : Byte} {isFull : Bool} (hs : s.parserStep = some s')
    (hp : s'.parser = .read line lastCh isFull) : line = [] ∧ isFull = false := by
  rw [Client.parserStep] at hs
  split at hs <;> grind [Option.map_eq_some_iff, Option.bind_eq_some_iff]

theorem raw_parse (h : Raw cfg g s.parser) (hs : s.parserStep = some s') : Raw cfg g s'.parser := by
  have hline : g.line = [] := by
    unfold Raw at h
    split at h
    · rename_i hp
      rw [Client.parserStep, hp] at hs
      cases hs
    · exact h
  unfold Raw
  split
  · rename_i hp
    obtain ⟨rfl, rfl⟩ := parser_read hs hp
    exact ⟨fun _ => hline.symm, fun h => by cases h⟩
  · exact hline

/-- A line that has room for the byte, and one that has not. -/
theorem readline_room {lastCh : Byte} {isFull : Bool} (h : line.length < cfg.recvBufsz) :
    Client.readline cfg line lastCh isFull ch =
      if endsLine cfg (line ++ [ch]) lastCh ch = true then
        if isFull = true ∨ (getUrcObj cfg (line ++ [ch])).isSome then .read [] 0 false else .test (line ++ [ch])
      else .read (line ++ [ch]) ch isFull := by
  simp only [Client.readline, if_pos h]

theorem readline_full {lastCh : Byte} {isFull : Bool} (h : ¬ line.length < cfg.recvBufsz) :
    Client.readline cfg line lastCh isFull ch =
      if endsLine cfg line lastCh ch = true then .read [] 0 false else .read line ch true := by
  simp only [Client.readline, if_neg h, true_or, if_true]

/-- **A byte comes in**: the line goes on, or ends with it. -/
theorem getchar_cases (hk : KeepsResponse cfg s (.getchar ch)) (h : Raw cfg g s.parser)
    (hs : s.step cfg (.getchar ch) = some s') :
    (∃ line lastCh isFull, s.parser = .read line lastCh isFull) ∧ ∃ p, s' = { s with parser := p } ∧ p.Quiet ∧
      Raw cfg (log cfg s (.getchar ch) s' g) p ∧
        ((log cfg s (.getchar ch) s' g).lines = g.lines ∧ (∃ line lastCh isFull, p = .read line lastCh isFull) ∨
          ∃ line, (log cfg s (.getchar ch) s' g).lines = g.lines ++ [line] ∧
            (p = .test line ∧ line ≠ [] ∨ p = .read [] 0 false ∧ (s.resp = none ∨ s.respStatus ≠ .ok))) := by
  rw [Client.step] at hs
  split at hs
  case h_2 => cases hs
  case h_1 line lastCh isFull hp =>
    cases hs
    refine ⟨⟨line, lastCh, isFull, hp⟩, _, rfl, ?_⟩
    rw [hp] at h
    rw [KeepsResponse, hp] at hk
    dsimp only at hk
    obtain ⟨hall, hmore⟩ := h
    simp only [log, hp]
    have hread : ∀ g' : Log, g'.line = [] → Raw cfg g' (.read [] 0 false) :=
      fun g' hg' => ⟨fun _ => hg'.symm, fun h => by cases h⟩
    by_cases hroom : line.length < cfg.recvBufsz
    · have hfull : isFull = false := by
        by_contra hne
        have := hmore (eq_true_of_ne_false hne)
        omega
      simp only [readline_room hroom, if_pos hroom, hfull, ← hall hfull]
      cases hends : endsLine cfg (line ++ [ch]) lastCh ch with
      | false => exact ⟨trivial, ⟨fun _ => rfl, fun h => by cases h⟩, .inl ⟨rfl, _, _, _, rfl⟩⟩
      | true =>
        by_cases hurc : (getUrcObj cfg (line ++ [ch])).isSome = true
        · simp only [hurc]
          exact ⟨trivial, hread _ rfl, .inl ⟨rfl, _, _, _, rfl⟩⟩
        · simp only [hurc]
          exact ⟨trivial, rfl, .inr ⟨_, rfl, .inl ⟨rfl, List.append_ne_nil_of_right_ne_nil _ (List.cons_ne_nil _ _)⟩⟩⟩
    · simp only [readline_full hroom, if_neg hroom]
      cases hends : endsLine cfg line lastCh ch with
      | false => exact ⟨trivial, ⟨fun h => absurd h (by decide), fun _ => not_lt.1 hroom⟩, .inl ⟨rfl, _, _, _, rfl⟩⟩
      | true =>
        by_cases hurc : (getUrcObj cfg line).isSome = true
        · simp only [hurc]
          exact ⟨trivial, hread _ rfl, .inl ⟨rfl, _, _, _, rfl⟩⟩
        · simp only [hurc]
          -- the line is dropped
          refine ⟨trivial, hread _ rfl, .inr ⟨_, rfl, .inr ⟨rfl, ?_⟩⟩⟩
          rcases hk with hnone | hshort | hgoes | hurc'
          · exact hnone
          · exact absurd hshort.2 hroom
          · rw [hends] at hgoes
            cases hgoes
          · exact absurd hurc' hurc
theorem raw_step (hk : KeepsResponse cfg s a) (h : Raw cfg g s.parser) (hs : s.step cfg a = some s') :
    Raw cfg (log cfg s a s' g) s'.parser := by
  cases a with
  | exec resp =>
    dsimp only [Client.step] at hs
    split_ifs at hs
    split at hs <;> cases hs <;> exact h
  | caller =>
    have hline : (log cfg s .caller s' g).line = g.line := by
      simp only [log]
      split <;> rfl
    have hparser : s'.parser = s.parser := by
      change s.callerStep = some s' at hs
      rw [Client.callerStep] at hs
      split at hs <;> grind
    rw [hparser]
    unfold Raw at h ⊢
    rw [hline]
    exact h
  | timer =>
    rw [Client.step] at hs
    split at hs
    · split_ifs at hs
      cases hs
      exact h
    · cases hs
  | getchar ch =>
    obtain ⟨-, p, rfl, -, hraw, -⟩ := getchar_cases hk h hs
    exact hraw
  | parser => exact raw_parse h hs

/-- A byte is no end of a response: the line that it ends is one more. -/
theorem active_getchar (hk : KeepsResponse cfg s (.getchar ch)) (hraw : Raw cfg g s.parser) (h : Active s g r)
    (hs : s.step cfg (.getchar ch) = some s') :
    Active s' (log cfg s (.getchar ch) s' g) r := by
  obtain ⟨hresp, hvalue, hparsing⟩ := h
  obtain ⟨⟨line, lastCh, isFull, hp⟩, p, rfl, -, -, hlines⟩ := getchar_cases hk hraw hs
  rw [hp] at hparsing
  refine ⟨hresp, hvalue, ?_⟩
  rcases hlines with ⟨hsame, line', lastCh', isFull', rfl⟩ | ⟨line', hmore, ⟨rfl, hne⟩ | ⟨rfl, hnone | hstatus⟩⟩
  · show Copied _ r _
    rw [hsame]
    exact hparsing
  · exact ⟨g.lines, hmore, hne, hparsing⟩
  · rw [hresp] at hnone
    cases hnone
  · exact .inl (hparsing.resolve_right fun hcopied => hstatus hcopied.1)

theorem over_getchar (hk : KeepsResponse cfg s (.getchar ch)) (hraw : Raw cfg g s.parser) (h : Over s g r)
    (hs : s.step cfg (.getchar ch) = some s') :
    s'.value = s.value ∧ s'.respStatus = s.respStatus ∧ Over s' (log cfg s (.getchar ch) s' g) r := by
  obtain ⟨hresp, hresult, -⟩ := h
  obtain ⟨-, p, rfl, hquiet, -, hlines⟩ := getchar_cases hk hraw hs
  have hmore : ∃ more, (log cfg s (.getchar ch) { s with parser := p } g).lines = g.lines ++ more := by
    rcases hlines with ⟨hsame, -⟩ | ⟨line, hmore, -⟩
    · exact ⟨[], hsame.trans (List.append_nil _).symm⟩
    · exact ⟨[line], hmore⟩
  obtain ⟨more, hmore⟩ := hmore
  refine ⟨rfl, rfl, hresp, hresult.imp_right fun hholds => ?_, hquiet⟩
  rw [hmore]
  exact hholds.append more

/-! ## Runs -/

/-- The response is not complete yet, or its token is in `resp_notice`. -/
def Pending (s : Client R) (g : Log) (r : R) : Prop := Active s g r ∨ Released s g r ∨ Over s g r ∧ s.value = 1#16

/-- Where the call is, and what the parser has for it. -/
def Kept (s : Client R) (g : Log) : Caller R → Prop
  | .reset r | .take r => Pending s g r
  | .blocked r => Active s g r ∨ Released s g r
  | .resumed r result => result = .eok → Over s g r
  | .test r => Over s g r
  | .exit (some r) result => result = .eok → Over s g r ∧ s.respStatus = .ok
  | _ => True

theorem pending_parse (hk : KeepsResponse cfg s .parser) (hblocked : ∀ r, s.caller ≠ .blocked r) (h : Pending s g r)
    (hs : s.parserStep = some s') : Pending s' g r := by
  rcases h with hactive | hreleased | ⟨hover, hvalue⟩
  · exact (active_parse hk hactive hs).imp_right .inl
  · obtain ⟨hover, hone, -⟩ := released_parse hreleased hs
    exact .inr (.inr ⟨hover, hone hblocked⟩)
  · obtain ⟨hsame, -, hover'⟩ := over_parse hover hs
    exact .inr (.inr ⟨hover', hsame.trans hvalue⟩)

theorem kept_parse (hk : KeepsResponse cfg s .parser) (h : Kept s g s.caller) (hs : s.parserStep = some s') :
    Kept s' g s'.caller := by
  by_cases hb : ∃ r, s.caller = .blocked r
  · obtain ⟨r, hr⟩ := hb
    rw [hr] at h
    rcases h with hactive | hreleased
    · have hwaits : s'.caller = s.caller := parser_caller (fun hp => absurd hactive.parsing (by rw [hp]; exact id)) hs
      rw [hwaits, hr]
      exact active_parse hk hactive hs
    · obtain ⟨hover, -, hresumed⟩ := released_parse hreleased hs
      rw [hresumed r hr]
      exact fun _ => hover
  have hblocked : ∀ r, s.caller ≠ .blocked r := fun r hr => hb ⟨r, hr⟩
  rw [parser_caller (fun _ => hblocked) hs]
  cases hcaller : s.caller <;> rw [hcaller] at h
  case reset r => exact pending_parse hk hblocked h hs
  case take r => exact pending_parse hk hblocked h hs
  case blocked r => exact absurd hcaller (hblocked r)
  case resumed r result => exact fun hok => (over_parse (h hok) hs).2.2
  case test r => exact (over_parse h hs).2.2
  case exit resp result =>
    cases resp with
    | none => trivial
    | some r =>
      intro hok
      obtain ⟨hover, hstatus⟩ := h hok
      obtain ⟨-, hsame, hover'⟩ := over_parse hover hs
      exact ⟨hover', hsame.trans hstatus⟩
  all_goals trivial

theorem kept_getchar (hk : KeepsResponse cfg s (.getchar ch)) (hraw : Raw cfg g s.parser) (h : Kept s g s.caller)
    (hs : s.step cfg (.getchar ch) = some s') : Kept s' (log cfg s (.getchar ch) s' g) s'.caller := by
  obtain ⟨⟨line, lastCh, isFull, hp⟩, hcases⟩ := getchar_cases hk hraw hs
  have hnot : ∀ r, ¬ Released s g r := fun r hreleased => by
    rw [hreleased.parser] at hp
    cases hp
  have hpending : ∀ r, Pending s g r → Pending s' (log cfg s (.getchar ch) s' g) r := by
    rintro r (hactive | hreleased | ⟨hover, hvalue⟩)
    · exact .inl (active_getchar hk hraw hactive hs)
    · exact absurd hreleased (hnot r)
    · obtain ⟨hsame, -, hover'⟩ := over_getchar hk hraw hover hs
      exact .inr (.inr ⟨hover', hsame.trans hvalue⟩)
  obtain ⟨p, hp', -⟩ := hcases
  rw [show s'.caller = s.caller by rw [hp']]
  cases hcaller : s.caller <;> rw [hcaller] at h
  case reset r => exact hpending r h
  case take r => exact hpending r h
  case blocked r => exact .inl (active_getchar hk hraw (h.resolve_right (hnot r)) hs)
  case resumed r result => exact fun hok => (over_getchar hk hraw (h hok) hs).2.2
  case test r => exact (over_getchar hk hraw h hs).2.2
  case exit resp result =>
    cases resp with
    | none => trivial
    | some r =>
      intro hok
      obtain ⟨hover, hstatus⟩ := h hok
      obtain ⟨-, hsame, hover'⟩ := over_getchar hk hraw hover hs
      exact ⟨hover', hsame.trans hstatus⟩
  all_goals trivial

/-- `line_counts` of the object is not what the parser has counted. -/
theorem active_reset (hdetach : s.respStatus = .ok → s.parser ≠ .detach) (h : Active s g r) (caller : Caller R) :
    Active { s with obj := Function.update s.obj r { s.obj r with lineCounts := 0 }, caller := caller } g r := by
  obtain ⟨hresp, hvalue, hparsing⟩ := h
  refine ⟨hresp, hvalue, ?_⟩
  dsimp only
  cases hp : s.parser <;> rw [hp] at hparsing
  case detach => exact .inl fun hok => hdetach hok hp
  case release => exact hparsing.elim
  case full => trivial
  all_goals simpa only [Parsing, Copied, Client.Has, Function.update_self] using hparsing

theorem kept_caller (hk : KeepsResponse cfg s .caller) (h : Kept s g s.caller) (hs : s.callerStep = some s') :
    Kept s' (log cfg s .caller s' g) s'.caller := by
  rw [Client.callerStep] at hs
  rw [KeepsResponse] at hk
  rw [log]
  cases hcaller : s.caller <;> rw [hcaller] at hs h hk <;> dsimp only at hs hk ⊢
  case idle => cases hs
  case blocked => cases hs
  case status r =>
    cases hs
    trivial
  case attach r =>
    cases hs
    trivial
  case send r =>
    cases r with
    | none =>
      cases hs
      trivial
    | some r =>
      cases hs
      obtain ⟨hresp, hstatus, hvalue, hparser⟩ := hk
      refine .inl ⟨hresp, hvalue, ?_⟩
      dsimp only
      split at hparser
      · rename_i hp
        rw [hp]
        refine .inr ⟨hstatus, ?_, rfl⟩
        rw [Client.Has, hparser.1, hparser.2]
        exact .empty _
      · rename_i hp
        rw [hp]
        exact ⟨hstatus, rfl⟩
      · exact hparser.elim
  case reset r =>
    cases hs
    rcases h with hactive | hreleased | ⟨hover, hone⟩
    · exact .inl (active_reset (fun hok => (hk hok).2) hactive _)
    · have hfails : s.respStatus ≠ .ok := fun hok => (hk hok).1 hreleased.resp
      exact .inr (.inl ⟨hreleased.resp, hreleased.value, .inl hfails, hreleased.parser⟩)
    · have hfails : s.respStatus ≠ .ok := fun hok => (hk hok).1 hover.resp
      exact .inr (.inr ⟨⟨hover.resp, .inl hfails, hover.quiet⟩, hone⟩)
  case take r =>
    split_ifs at hs with hvalue htimeout
    · cases hs
      rcases h with hactive | hreleased | ⟨hover, -⟩
      · exact absurd hactive.value hvalue
      · exact absurd hreleased.value hvalue
      · exact ⟨hover.resp, hover.result, hover.quiet⟩
    · cases hs
      trivial
    · cases hs
      rcases h with hactive | hreleased | ⟨-, hone⟩
      · exact .inl ⟨hactive.resp, hactive.value, hactive.parsing⟩
      · exact .inr ⟨hreleased.resp, hreleased.value, hreleased.result, hreleased.parser⟩
      · exact absurd (by rw [hone]; decide) hvalue
  case resumed r result =>
    cases hs
    dsimp only
    split_ifs with hok
    · exact ⟨(h hok).resp, (h hok).result, (h hok).quiet⟩
    · trivial
  case timeout r =>
    cases hs
    intro hok
    cases hok
  case test r =>
    cases hs
    dsimp only
    split_ifs with hok
    · exact fun _ => ⟨⟨h.resp, h.result, h.quiet⟩, hok⟩
    · intro herr
      cases herr
  case exit r result =>
    cases hs
    trivial

/-- **One step** keeps what the call and the parser have of the response. -/
theorem kept_step (hk : KeepsResponse cfg s a) (hraw : Raw cfg g s.parser) (h : Kept s g s.caller)
    (hs : s.step cfg a = some s') : Kept s' (log cfg s a s' g) s'.caller := by
  cases a with
  | exec resp =>
    dsimp only [Client.step] at hs
    split_ifs at hs
    split at hs <;> cases hs <;> trivial
  | caller => exact kept_caller hk h hs
  | timer =>
    rw [Client.step] at hs
    split at hs
    · split_ifs at hs
      cases hs
      intro hok
      cases hok
    · cases hs
  | getchar ch => exact kept_getchar hk hraw h hs
  | parser => exact kept_parse hk h hs

/-- **Command and response correspond**: where a call returns `RT_EOK`, its object holds the lines received since its
command was sent up to the one that ends the response. -/
theorem response_exact (hrun : Runs cfg (KeepsResponse cfg) (s, g)) (hcaller : s.caller = .exit (some r) .eok) :
    Holds (s.obj r) g.lines := by
  have hkept : Raw cfg g s.parser ∧ Kept s g s.caller := by
    refine Run.Reach.inv (I := fun p => Raw cfg p.2 p.1.parser ∧ Kept p.1 p.2 p.1.caller) ?_ ?_ hrun
    · rintro ⟨s, g⟩ ⟨⟨-, -, -, hidle, hread, -⟩, rfl⟩
      rw [hidle, hread]
      exact ⟨⟨fun _ => rfl, fun h => absurd h (by decide)⟩, trivial⟩
    · rintro ⟨s, g⟩ a ⟨s', g'⟩ ⟨hraw, hkept⟩ hok ⟨hs, hg⟩
      obtain rfl : g' = log cfg s a s' g := hg
      exact ⟨raw_step hok hraw hs, kept_step hok hraw hkept hs⟩
  have hexit := hkept.2
  rw [hcaller] at hexit
  obtain ⟨hover, hstatus⟩ := hexit rfl
  exact hover.result.resolve_left fun h => h hstatus

/-- A client that receives lines of up to 64 bytes, no end sign and no URCs. -/
def plain : Config := ⟨64, 0, []⟩

def idleClient : Client Unit := ⟨.ok, none, 0, .idle, .read [] 0 false, 0, 0, fun _ => ⟨[], 0, 0, 0⟩⟩

theorem idleClient_init : idleClient.Init := ⟨rfl, rfl, rfl, rfl, rfl, rfl, rfl⟩

/-- A command is sent, with a response object of eight bytes, and waits for its response. -/
def sendCommand : List (Act Unit) :=
  .exec (some ((), ⟨List.replicate 8 0, 0, 0, 10⟩)) :: List.replicate 5 .caller

/-- `"OK\r\n"` comes, and the call returns. -/
def okLine : List (Act Unit) :=
  [79, 75, 13, 10].map .getchar ++ List.replicate 8 .parser ++ List.replicate 2 .caller

theorem response_exact_once : ∃ (s : Client Unit) (g : Log), s.caller = .exit (some ()) .eok ∧
    g.lines = [[79, 75, 13, 10]] ∧ Holds (s.obj ()) g.lines := by
  obtain ⟨⟨s, g⟩, hr, h⟩ := Run.Reach.exec_logged (fun (s : Client Unit) a => s.step plain a)
    (fun _ => (⟨[], []⟩ : Log)) (log plain) (KeepsResponse plain) idleClient_init (sendCommand ++ okLine)
    (fun p => decide (p.1.caller = .exit (some ()) .eok) && decide (p.2.lines = [[79, 75, 13, 10]]))
    (by decide)
  simp only [Bool.and_eq_true, decide_eq_true_eq] at h
  exact ⟨s, g, h.1, h.2, response_exact hr h.1⟩

/-- **A line is lost**: the first line does not fit, `OK` does, and `AT_RESP_OK` is written over
`AT_RESP_BUFF_FULL`. The call returns `RT_EOK` with one line of two. -/
theorem response_incomplete : ∃ (s : Client Unit) (g : Log), Runs plain Run.Any (s, g) ∧
    s.caller = .exit (some ()) .eok ∧ g.lines = [[97, 98, 99, 100, 101, 102, 13, 10], [79, 75, 13, 10]] ∧
      (s.obj ()).lineCounts = 1 ∧ ¬ Holds (s.obj ()) g.lines := by
  obtain ⟨⟨s, g⟩, hr, h⟩ := Run.Reach.exec_logged (fun (s : Client Unit) a => s.step plain a)
    (fun _ => (⟨[], []⟩ : Log)) (log plain) Run.Any idleClient_init
    (sendCommand ++ [97, 98, 99, 100, 101, 102, 13, 10].map .getchar ++ List.replicate 5 .parser ++ okLine)
    (fun p => decide (p.1.caller = .exit (some ()) .eok) &&
      (decide (p.2.lines = [[97, 98, 99, 100, 101, 102, 13, 10], [79, 75, 13, 10]]) &&
        decide (p.1.obj () = ⟨[79, 75, 13, 0, 0, 0, 0, 0], 0, 1, 10⟩)))
    (by decide)
  simp only [Bool.and_eq_true, decide_eq_true_eq] at h
  obtain ⟨hcaller, hlines, hobj⟩ := h
  refine ⟨s, g, hr, hcaller, hlines, by rw [hobj], ?_⟩
  rw [hobj, hlines]
  rintro ⟨ls, hresponse, -, hcounts, -⟩
  have htwo : response 0 0 [[97, 98, 99, 100, 101, 102, 13, 10], [79, 75, 13, 10]] =
      some [[97, 98, 99, 100, 101, 102, 13, 10], [79, 75, 13, 10]] := by decide
  cases hresponse.symm.trans htwo
  cases hcounts

end RtThread.AtClient
