import RtThread.Spec.Ulog

/-!
# What the log backends get

* `outputLoop_colored`, `right_cons`: backends with colour get the log as it is and do not matter for those behind.
* `right_plain_iff`: what the first backend without colour and the next one get.
* `output_right_iff`: **when each backend gets the right text**.
-/

namespace RtThread.Ulog

open Kservice

variable {cfg : Config} {level : Level} {tag : Option (List Char)} {isRaw : Bool} {mem : ℕ → Char} {log : ℕ}
  {size : BitVec 32} {full plain color : List Char} {b : Backend} {backends r : List Backend}

/-! ## Texts -/

/-- The characters at an address. -/
def chars (mem : ℕ → Char) (log n : ℕ) : List Char := (List.range n).map fun i => mem (address (log + i))

theorem chars_length (mem : ℕ → Char) (log n : ℕ) : (chars mem log n).length = n := by
  rw [chars, List.length_map, List.length_range]

theorem chars_add (mem : ℕ → Char) (log n k : ℕ) :
    chars mem log (n + k) = chars mem log n ++ chars mem (address (log + n)) k := by
  unfold chars
  rw [List.range_add, List.map_append, List.map_map]
  refine congrArg _ (List.map_congr_left fun i _ => ?_)
  unfold address
  rw [Function.comp_apply, Nat.mod_add_mod, Nat.add_assoc]

theorem text_eq (c : Call) : c.text mem = chars mem c.log c.size.toNat := rfl

/-- A part of the characters. -/
theorem chars_part {n : ℕ} {l m r : List Char} (h : chars mem log n = l ++ m ++ r) :
    n = l.length + m.length + r.length ∧ chars mem (address (log + l.length)) m.length = m := by
  have hn : n = l.length + m.length + r.length := by
    rw [← chars_length mem log n, h, List.length_append, List.length_append]
  refine ⟨hn, ?_⟩
  rw [hn, chars_add, chars_add, List.append_assoc, List.append_assoc] at h
  have hrest := (List.append_inj h (chars_length _ _ _)).2
  exact (List.append_inj hrest (chars_length _ _ _)).1

/-! ## The loop -/

theorem outputLoop_some {calls : Option (List Call)} (hb : b.supportColor = true)
    (hcalls : cfg.outputLoop level tag isRaw log size r = calls) :
    cfg.outputLoop level tag isRaw log size (b :: r) = calls.map (⟨b, level, tag, isRaw, log, size⟩ :: ·) := by
  rw [Config.outputLoop, if_pos hb, hcalls]
  cases calls <;> rfl

/-- **A backend with colour** does not matter for those behind. -/
theorem right_cons (hb : b.supportColor = true) (hfull : chars mem log size.toNat = full) :
    Right (b :: r) level tag isRaw mem full plain (cfg.outputLoop level tag isRaw log size (b :: r)) ↔
      Right r level tag isRaw mem full plain (cfg.outputLoop level tag isRaw log size r) := by
  rw [outputLoop_some hb rfl]
  unfold Right
  constructor
  · rintro ⟨l, hl, hmap⟩
    obtain ⟨calls, hcalls, rfl⟩ := Option.map_eq_some_iff.1 hl
    rw [List.map_cons, List.map_cons, List.cons_eq_cons] at hmap
    exact ⟨calls, hcalls, hmap.2⟩
  · rintro ⟨l, hl, hmap⟩
    refine ⟨_, by rw [hl]; rfl, ?_⟩
    rw [List.map_cons, List.map_cons, hmap, if_pos hb, text_eq, hfull]

theorem right_append {l : List Backend} (hl : ∀ b ∈ l, b.supportColor = true) (hfull : chars mem log size.toNat = full) :
    Right (l ++ r) level tag isRaw mem full plain (cfg.outputLoop level tag isRaw log size (l ++ r)) ↔
      Right r level tag isRaw mem full plain (cfg.outputLoop level tag isRaw log size r) := by
  induction l with
  | nil => exact Iff.rfl
  | cons b l ih =>
    rw [List.cons_append, right_cons (hl b List.mem_cons_self) hfull]
    exact ih fun b hb => hl b (List.mem_cons_of_mem _ hb)

theorem right_nil : Right [] level tag isRaw mem full plain (cfg.outputLoop level tag isRaw log size []) :=
  ⟨[], rfl, rfl⟩

/-- What the loop takes off the log for a backend without colour. -/
def stripped (color : List Char) : ℕ := if color = [] then 0 else csiStart.length + color.length

def strippedSize (color : List Char) : ℕ := if color = [] then 0 else csiStart.length + color.length + csiEnd.length

theorem outputLoop_plain (hb : b.supportColor = false) (hcolor : cfg.colorOutputInfo level = some color) (hlog : log < 2 ^ 32) :
    cfg.outputLoop level tag isRaw log size (b :: r) =
      (cfg.outputLoop level tag isRaw (address (log + stripped color)) (size - BitVec.ofNat 32 (strippedSize color)) r).map
        (⟨b, level, tag, isRaw, address (log + stripped color), size - BitVec.ofNat 32 (strippedSize color)⟩ :: ·) := by
  have hlt := cfg.colorOutputInfo_lt level color hcolor
  rw [Config.outputLoop, hb, hcolor]
  simp only [rtStrlen, Option.map_some, Option.bind_eq_bind, Option.bind_some, Bool.false_eq_true, if_false]
  unfold stripped strippedSize
  by_cases hnil : color = []
  · subst hnil
    have haddr : address log = log := Nat.mod_eq_of_lt hlog
    simp only [List.length_nil, ne_eq, if_true, if_false, not_true_eq_false, Nat.add_zero, haddr, BitVec.sub_zero,
      BitVec.ofNat_eq_ofNat]
    cases cfg.outputLoop level tag isRaw log size r <;> rfl
  · have hne : BitVec.ofNat 32 color.length ≠ 0 := by
      intro h
      have hnat := congrArg BitVec.toNat h
      rw [BitVec.toNat_ofNat, Nat.mod_eq_of_lt (by omega)] at hnat
      exact hnil (List.length_eq_zero_iff.1 hnat)
    have hhdr : (BitVec.ofNat 32 (csiStart.length + color.length)).toNat = csiStart.length + color.length := by
      rw [BitVec.toNat_ofNat]
      exact Nat.mod_eq_of_lt (by show 2 + color.length < _; omega)
    simp only [hne, hnil, ne_eq, not_false_eq_true, if_true, if_false, ← BitVec.ofNat_add, hhdr]
    cases cfg.outputLoop level tag isRaw _ _ r <;> rfl

/-- The first call of the loop. -/
theorem outputLoop_head {l : List Call} (h : cfg.outputLoop level tag isRaw log size (b :: r) = some l)
    (hcolor : cfg.colorOutputInfo level = some color) (hlog : log < 2 ^ 32) :
    ∃ c rest, l = c :: rest ∧
      c.size = if b.supportColor then size else size - BitVec.ofNat 32 (strippedSize color) := by
  cases hb : b.supportColor with
  | true =>
    rw [outputLoop_some hb rfl] at h
    obtain ⟨rest, -, rfl⟩ := Option.map_eq_some_iff.1 h
    exact ⟨_, rest, rfl, rfl⟩
  | false =>
    rw [outputLoop_plain hb hcolor hlog] at h
    obtain ⟨rest, -, rfl⟩ := Option.map_eq_some_iff.1 h
    exact ⟨_, rest, rfl, rfl⟩

/-! ## The first backend without colour -/

/-- Less than the whole size is another size. -/
theorem size_sub_ne {k : ℕ} (hpos : 0 < k) (hlt : k < 2 ^ 32) : (size - BitVec.ofNat 32 k).toNat ≠ size.toNat := by
  intro h
  have hzero := BitVec.eq_of_toNat_eq h
  rw [BitVec.sub_eq_iff_eq_add, BitVec.self_eq_add_right] at hzero
  have hnat := congrArg BitVec.toNat hzero
  rw [BitVec.toNat_ofNat, Nat.mod_eq_of_lt hlt] at hnat
  exact Nat.ne_of_gt hpos hnat

/-- The sizes of the parts of a log. -/
theorem log_length (hlog : cfg.Log level isRaw full plain) (hcolor : cfg.colorOutputInfo level = some color) :
    full.length = plain.length + if isRaw then 0 else csiStart.length + color.length + csiEnd.length := by
  cases hlog with
  | raw => rfl
  | plain _ hnone =>
    rw [hnone] at hcolor
    cases hcolor
  | colored color' _ hcolor' =>
    rw [hcolor'] at hcolor
    cases hcolor
    simp only [List.length_append, Bool.false_eq_true, if_false]
    omega

/-- **The first backend without colour** gets the right text if the code takes off what the log has, and none may
come behind it if that is something. -/
theorem right_plain_iff (hb : b.supportColor = false) (hcolor : cfg.colorOutputInfo level = some color)
    (hlog : cfg.Log level isRaw full plain) (haddr : log < 2 ^ 32) (hfull : chars mem log size.toNat = full) :
    Right (b :: r) level tag isRaw mem full plain (cfg.outputLoop level tag isRaw log size (b :: r)) ↔
      if isRaw then color = [] ∧
        Right r level tag isRaw mem full plain (cfg.outputLoop level tag isRaw log size r)
      else color ≠ [] ∧ r = [] := by
  have hlt := cfg.colorOutputInfo_lt level color hcolor
  have hlen := log_length hlog hcolor
  have hsize : size.toNat = full.length := by rw [← hfull, chars_length]
  have hstart : csiStart.length = 2 := rfl
  have hend : csiEnd.length = 4 := rfl
  rw [outputLoop_plain hb hcolor haddr]
  by_cases hnil : color = []
  · subst hnil
    have haddr' : address log = log := Nat.mod_eq_of_lt haddr
    simp only [stripped, strippedSize, if_true, Nat.add_zero, haddr', BitVec.sub_zero, ne_eq, not_true_eq_false, false_and, true_and]
    cases hlog with
    | raw =>
      simp only [if_true]
      constructor
      · rintro ⟨l, hl, hmap⟩
        obtain ⟨calls, hcalls, rfl⟩ := Option.map_eq_some_iff.1 hl
        rw [List.map_cons, List.map_cons, List.cons_eq_cons] at hmap
        exact ⟨calls, hcalls, hmap.2⟩
      · rintro ⟨l, hl, hmap⟩
        refine ⟨_, by rw [hl]; rfl, ?_⟩
        rw [List.map_cons, List.map_cons, hmap, hb, text_eq, hfull]
        rfl
    | plain _ hnone =>
      rw [hnone] at hcolor
      cases hcolor
    | colored color' _ hcolor' =>
      simp only [Bool.false_eq_true, if_false, iff_false]
      rintro ⟨l, hl, hmap⟩
      obtain ⟨calls, -, rfl⟩ := Option.map_eq_some_iff.1 hl
      rw [List.map_cons, List.map_cons, List.cons_eq_cons, hb] at hmap
      simp only [Prod.mk.injEq, Bool.false_eq_true, if_false, true_and] at hmap
      have hlength := congrArg List.length hmap.1
      rw [text_eq, chars_length, hsize] at hlength
      simp only [Bool.false_eq_true, if_false] at hlen
      omega
  · have hk : strippedSize color = csiStart.length + color.length + csiEnd.length := if_neg hnil
    have hk' : stripped color = csiStart.length + color.length := if_neg hnil
    constructor
    · rintro ⟨l, hl, hmap⟩
      obtain ⟨calls, hcalls, rfl⟩ := Option.map_eq_some_iff.1 hl
      rw [List.map_cons, List.map_cons, List.cons_eq_cons, hb] at hmap
      simp only [Prod.mk.injEq, Bool.false_eq_true, if_false, true_and] at hmap
      have hlength := congrArg List.length hmap.1
      rw [text_eq, chars_length] at hlength
      cases hraw : isRaw with
      | true =>
        rw [hraw] at hlen
        rw [if_pos rfl, Nat.add_zero] at hlen
        exact absurd (hlength.trans (hlen.symm.trans hsize.symm)) (size_sub_ne (by omega) (by omega))
      | false =>
        refine ⟨hnil, ?_⟩
        cases r with
        | nil => rfl
        | cons b' r =>
          exfalso
          obtain ⟨c, rest, rfl, hc⟩ := outputLoop_head hcalls hcolor (Nat.mod_lt _ (by decide))
          have hhead := hmap.2
          rw [List.map_cons, List.map_cons, List.cons_eq_cons] at hhead
          simp only [Prod.mk.injEq] at hhead
          have htext := congrArg List.length hhead.1.2.2.2.2
          rw [text_eq, chars_length, hc] at htext
          cases hb' : b'.supportColor with
          | true =>
            simp only [hb', if_true, ← hsize] at htext
            exact size_sub_ne (by omega) (by omega) htext
          | false =>
            simp only [hb', Bool.false_eq_true, if_false, ← hlength] at htext
            exact size_sub_ne (by omega) (by omega) htext
    · cases hlog with
      | raw =>
        rintro ⟨h, -⟩
        exact absurd h hnil
      | plain _ hnone =>
        rw [hnone] at hcolor
        cases hcolor
      | colored color' _ hcolor' =>
        rw [hcolor'] at hcolor
        cases hcolor
        rintro ⟨-, rfl⟩
        obtain ⟨hn, hpart⟩ := chars_part hfull
        rw [List.length_append] at hn hpart
        refine ⟨_, rfl, ?_⟩
        rw [List.map_cons, List.map_cons, hb, text_eq]
        have hsub : (size - BitVec.ofNat 32 (strippedSize color)).toNat = plain.length := by
          rw [BitVec.toNat_sub_of_le, BitVec.toNat_ofNat, Nat.mod_eq_of_lt (by omega)]
          · omega
          · rw [BitVec.le_def, BitVec.toNat_ofNat, Nat.mod_eq_of_lt (by omega)]
            omega
        simp only [hsub, hk', hpart]
        rfl

/-! ## The condition -/

theorem dropLast_cons (hr : r ≠ []) : (b :: r).dropLast = b :: r.dropLast := by
  cases r with
  | nil => exact absurd rfl hr
  | cons => rfl

theorem separate_some (hb : b.supportColor = true) :
    cfg.Separate (b :: r) level isRaw ↔ cfg.Separate r level isRaw := by
  unfold Config.Separate
  rw [List.forall_mem_cons]
  simp only [hb, true_and]
  by_cases hr : r = []
  · subst hr
    exact iff_of_true (.inl fun b hb => nomatch hb) (.inl fun b hb => nomatch hb)
  · rw [dropLast_cons hr, List.forall_mem_cons]
    simp only [hb, true_and]

theorem separate_plain (hb : b.supportColor = false) : cfg.Separate (b :: r) level isRaw ↔
    ∃ color, cfg.colorOutputInfo level = some color ∧ if isRaw then color = [] else color ≠ [] ∧ r = [] := by
  have hdrop : (∀ b' ∈ (b :: r).dropLast, b'.supportColor = true) ↔ r = [] := by
    by_cases hr : r = []
    · subst hr
      exact iff_of_true (fun b hb => nomatch hb) rfl
    · rw [dropLast_cons hr, List.forall_mem_cons]
      refine iff_of_false (fun h => ?_) hr
      rw [hb] at h
      exact Bool.false_ne_true h.1
  unfold Config.Separate
  rw [hdrop, List.forall_mem_cons, hb]
  simp only [Bool.false_eq_true, false_and, false_or]

theorem outputLoop_right_iff (hlog : cfg.Log level isRaw full plain) (haddr : log < 2 ^ 32)
    (hfull : chars mem log size.toNat = full) :
    Right backends level tag isRaw mem full plain (cfg.outputLoop level tag isRaw log size backends) ↔
      cfg.Separate backends level isRaw := by
  induction backends with
  | nil => exact iff_of_true right_nil (.inl fun b hb => nomatch hb)
  | cons b r ih =>
    cases hb : b.supportColor with
    | true => rw [right_cons hb hfull, separate_some hb, ih]
    | false =>
      rw [separate_plain hb]
      cases hcolor : cfg.colorOutputInfo level with
      | none =>
        refine iff_of_false (fun h => ?_) fun ⟨color, h, _⟩ => nomatch h
        obtain ⟨l, hl, -⟩ := h
        rw [Config.outputLoop, hb, hcolor] at hl
        cases hl
      | some color =>
        rw [right_plain_iff hb hcolor hlog haddr hfull, ih]
        simp only [Option.some.injEq, exists_eq_left']
        cases hraw : isRaw with
        | true =>
          simp only [if_true, and_iff_left_iff_imp]
          intro hnil
          exact .inr ⟨color, hcolor, hnil⟩
        | false => rfl

/-- **When each backend gets the right text**: `full` is the log in memory, `plain` what is between its colour header
and its end sequence. -/
theorem output_right_iff (cfg : Config) (initOk : Bool) (backends : List Backend) (level : Level)
    (tag : Option (List Char)) (isRaw : Bool) (mem : ℕ → Char) {log : ℕ} {size : BitVec 32} {full plain : List Char}
    (hlog : cfg.Log level isRaw full plain) (haddr : log < 2 ^ 32) (hfull : chars mem log size.toNat = full) :
    Right backends level tag isRaw mem full plain
        (cfg.ulogOutputToAllBackend initOk backends level tag isRaw log size) ↔
      (initOk = true ∨ backends = []) ∧ cfg.Separate backends level isRaw := by
  unfold Config.ulogOutputToAllBackend
  cases initOk with
  | true =>
    rw [if_neg (not_not.2 rfl), outputLoop_right_iff hlog haddr hfull]
    simp only [true_or, true_and]
  | false =>
    rw [if_pos Bool.false_ne_true]
    constructor
    · rintro ⟨l, hl, hmap⟩
      cases hl
      have hnil : backends = [] := List.map_eq_nil_iff.1 hmap.symm
      subst hnil
      exact ⟨.inr rfl, .inl fun b hb => nomatch hb⟩
    · rintro ⟨h, -⟩
      obtain rfl := h.resolve_left Bool.false_ne_true
      exact ⟨[], rfl, rfl⟩

/-! ## Examples -/

/-- A memory with a log of the level `LOG_LVL_INFO` at the address 16. -/
def infoLog : List Char := csiStart ++ ['3', '2', 'm'] ++ ['I', '/', 'm', ' ', 't', ':', ' ', 'a'] ++ csiEnd

def infoMem : ℕ → Char := fun i => (infoLog[i - 16]?).getD '\x00'

/-- A backend with colour and one without get the right texts. -/
theorem output_right_info : Right [⟨true⟩, ⟨false⟩] 6 (some ['m']) false infoMem infoLog
    ['I', '/', 'm', ' ', 't', ':', ' ', 'a']
    (Config.default.ulogOutputToAllBackend true [⟨true⟩, ⟨false⟩] 6 (some ['m']) false 16 17) :=
  (output_right_iff Config.default true [⟨true⟩, ⟨false⟩] 6 (some ['m']) false infoMem
    (.colored ['3', '2', 'm'] ['I', '/', 'm', ' ', 't', ':', ' ', 'a'] rfl) (by decide) (by decide)).2
    ⟨.inl rfl, .inr ⟨['3', '2', 'm'], rfl, by decide, by decide⟩⟩

/-- **Two backends without colour**: the header is taken off twice. -/
theorem output_second : ¬Right [⟨false⟩, ⟨false⟩] 6 (some ['m']) false infoMem infoLog
    ['I', '/', 'm', ' ', 't', ':', ' ', 'a']
    (Config.default.ulogOutputToAllBackend true [⟨false⟩, ⟨false⟩] 6 (some ['m']) false 16 17) := by
  intro h
  have hloop : Right [⟨false⟩, ⟨false⟩] 6 (some ['m']) false infoMem infoLog ['I', '/', 'm', ' ', 't', ':', ' ', 'a']
      (Config.default.outputLoop 6 (some ['m']) false 16 17 [⟨false⟩, ⟨false⟩]) := h
  have hlog : Config.default.Log 6 false infoLog ['I', '/', 'm', ' ', 't', ':', ' ', 'a'] := .colored ['3', '2', 'm'] _ rfl
  rcases (outputLoop_right_iff hlog (by decide) (by decide)).1 hloop with hall | ⟨color, -, -, hlast⟩
  · exact Bool.false_ne_true (hall ⟨false⟩ List.mem_cons_self)
  · exact Bool.false_ne_true (hlast ⟨false⟩ List.mem_cons_self)

end RtThread.Ulog
