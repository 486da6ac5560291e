import RtThread.Spec.Printf

/-!
# Bounded formatting agrees with unbounded formatting

* `printNumber_emits`, `conversion_conveys`, `formatLoop_conveys`: every function emits the same characters,
  wherever they go.
* `vsnprintf_bounded`: **`rt_vsnprintf` stores the beginning of the output**, a `'\0'` behind it, and
  nothing outside its room in the buffer, and returns the length of the output.
* `vsnprintf_cut`: a buffer up to the end of the address space loses a character.
-/

namespace RtThread.Kservice

open Emit

variable {special : Bool} {num width precision : BitVec 32} {base : ℕ} {type flags : Flags} {s : Conv}
  {qualifier : Option Char} {fmt out : List Char} {args : List Arg}

/-! ## What the functions emit -/

theorem fill_emits (c : Char) (n : ℕ) : Emits (fun _ put s => fill put c n s) (List.replicate n c) := by
  intro σ put s
  show fill put c n s = _
  induction n generalizing s with
  | zero => rfl
  | succ n ih =>
    rw [List.replicate_succ, List.foldl_cons, ← ih]
    rfl

/-- **`print_number`** emits its characters wherever they go. -/
theorem printNumber_emits (special : Bool) (num : BitVec 32) (base : ℕ) (size precision : BitVec 32) (type : Flags) :
    Emitter (fun _ put s => printNumber special put s num base size precision type) := by
  have hfill : ∀ c n, Emitter (fun _ put s => fill put c n s) := fun c n => (fill_emits c n).emitter
  have hnothing : Emitter (α := Char) (fun _ _ s => s) := Emits.nothing.emitter
  unfold printNumber
  -- from the last characters to the first
  refine Emitter.comp (hfill ' ' _) ?_
  refine Emitter.comp (Emitter.ite hnothing (Emits.fold _).emitter) ?_
  refine Emitter.comp (hfill '0' _) ?_
  refine Emitter.comp (Emitter.ite hnothing (hfill _ _)) ?_
  refine Emitter.comp (Emitter.ite (Emitter.comp (Emits.one _).emitter (Emits.one '0').emitter) hnothing) ?_
  refine Emitter.comp (Emitter.ite (Emits.one '0').emitter hnothing) ?_
  refine Emitter.comp (Emits.fold _).emitter ?_
  exact Emitter.ite (hfill _ _) hnothing

theorem convChar_conveys (width : BitVec 32) (s : Conv) : Conveys (fun _ put str => convChar put str width s) := by
  have hfill : ∀ c n, Emitter (fun _ put s => fill put c n s) := fun c n => (fill_emits c n).emitter
  unfold convChar
  cases vaInt s.args with
  | none => exact .fails
  | some x =>
    refine Emitter.conveys (Emitter.comp (hfill ' ' _) ?_) _
    refine Emitter.comp (Emits.one _).emitter ?_
    exact Emitter.ite Emits.nothing.emitter (hfill _ _)

theorem convStr_conveys (width precision : BitVec 32) (s : Conv) :
    Conveys (fun _ put str => convStr put str width precision s) := by
  have hfill : ∀ c n, Emitter (fun _ put s => fill put c n s) := fun c n => (fill_emits c n).emitter
  unfold convStr
  split
  · refine Emitter.conveys (Emitter.comp (hfill ' ' _) ?_) _
    refine Emitter.comp (Emits.fold _).emitter ?_
    exact Emitter.ite Emits.nothing.emitter (hfill _ _)
  · exact .fails

theorem convInt_conveys (special : Bool) (base : ℕ) (width precision : BitVec 32) (qualifier : Option Char) (s : Conv) :
    Conveys (fun _ put str => convInt special put str base width precision qualifier s) := by
  unfold convInt
  cases vaInt s.args with
  | none => exact .fails
  | some x => exact (printNumber_emits special _ base width precision s.flags).conveys _

theorem convert_conveys (special : Bool) (width precision : BitVec 32) (qualifier : Option Char) (s : Conv) :
    Conveys (fun _ put str => convert special put str width precision qualifier s) := by
  have hone : ∀ c, Emitter (fun _ put s => put s c) := fun c : Char => (Emits.one c).emitter
  unfold convert
  split
  case h_1 => exact convChar_conveys width _
  case h_2 => exact convStr_conveys width precision _
  case h_3 =>
    split
    · exact convInt_conveys special 16 8 precision none _
    · exact convInt_conveys special 16 width precision none _
  case h_4 => exact (hone '%').conveys _
  case h_11 c _ _ _ _ _ _ _ _ _ _ _ _ =>
    split
    · exact (hone '%').conveys _
    · exact ((hone c).comp (hone '%')).conveys _
  case h_12 => exact (hone '%').conveys _
  all_goals exact convInt_conveys special _ width precision qualifier _

/-- **A conversion** emits its characters wherever they go, and reads the same of the format and the arguments. -/
theorem conversion_conveys (special : Bool) (fmt : List Char) (args : List Arg) :
    Conveys (fun _ put str => conversion special put str fmt args) := by
  unfold conversion
  simp only [Option.bind_eq_bind]
  cases fieldWidth ⟨(flagsOf ⟨false, false, false, false, false, false, false⟩ fmt).1,
      (flagsOf ⟨false, false, false, false, false, false, false⟩ fmt).2, args⟩ with
  | none => exact .fails
  | some x =>
    simp only [Option.bind_some]
    cases precisionOf x.2 with
    | none => exact .fails
    | some y => exact convert_conveys special x.1 y.1 (qualifierOf y.2).1 (qualifierOf y.2).2

theorem formatLoop_nil {σ : Type} (put : σ → Char → σ) (str : σ) : formatLoop special put str [] args = some str := by
  rw [formatLoop]

theorem formatLoop_literal {σ : Type} {c : Char} (put : σ → Char → σ) (str : σ) (hz : c ≠ '\x00') (hp : c ≠ '%') :
    formatLoop special put str (c :: fmt) args = formatLoop special put (put str c) fmt args := by
  rw [formatLoop, if_neg hz, if_neg hp]

theorem formatLoop_percent {σ : Type} (put : σ → Char → σ) (str : σ) :
    formatLoop special put str ('%' :: fmt) args =
      (conversion special put str fmt args).bind fun x => formatLoop special put x.1 x.2.fmt x.2.args := by
  rw [formatLoop, if_neg (by decide), if_pos rfl]
  split <;> rename_i hc <;> rw [hc] <;> rfl

/-- **The loop** emits its characters wherever they go. -/
theorem formatLoop_conveys (special : Bool) (fmt : List Char) (args : List Arg) :
    (∀ (σ : Type) (put : σ → Char → σ) (s : σ), formatLoop special put s fmt args = none) ∨
      ∃ out : List Char, ∀ (σ : Type) (put : σ → Char → σ) (s : σ),
        formatLoop special put s fmt args = some (out.foldl put s) := by
  -- by induction on the length of the format
  generalize hn : fmt.length = n
  induction n using Nat.strong_induction_on generalizing fmt args with
  | _ n ih =>
    subst hn
    cases fmt with
    | nil => exact .inr ⟨[], fun σ put s => formatLoop_nil put s⟩
    | cons c fmt =>
      by_cases hz : c = '\x00'
      · exact .inr ⟨[], fun σ put s => by rw [formatLoop, if_pos hz]; rfl⟩
      · by_cases hp : c = '%'
        · subst hp
          have hconveys := conversion_conveys special fmt args
          simp only [Conveys] at hconveys
          rcases hconveys with hc | ⟨out, s', hc⟩
          · refine .inl fun σ put s => ?_
            rw [formatLoop_percent, hc]
            rfl
          · have hlt : s'.fmt.length < ('%' :: fmt).length :=
              Nat.lt_succ_of_le (conversion_length (hc (List Char) (fun l c => l ++ [c]) []))
            rcases ih s'.fmt.length hlt s'.fmt s'.args rfl with hr | ⟨out', hr⟩
            · refine .inl fun σ put s => ?_
              rw [formatLoop_percent, hc, Option.bind_some, hr]
            · refine .inr ⟨out ++ out', fun σ put s => ?_⟩
              rw [formatLoop_percent, hc, Option.bind_some, hr, List.foldl_append]
        · rcases ih fmt.length (Nat.lt_succ_self _) fmt args rfl with hr | ⟨out, hr⟩
          · refine .inl fun σ put s => ?_
            rw [formatLoop_literal put s hz hp, hr]
          · refine .inr ⟨c :: out, fun σ put s => ?_⟩
            rw [formatLoop_literal put s hz hp, hr, List.foldl_cons]

/-- What the loop does to any buffer, from what an unlimited one receives. -/
theorem formatLoop_output (hout : output special fmt args = some out) (σ : Type) (put : σ → Char → σ) (s : σ) :
    formatLoop special put s fmt args = some (out.foldl put s) := by
  unfold output at hout
  rcases formatLoop_conveys special fmt args with h | ⟨out', h⟩
  · rw [h] at hout
    cases hout
  · have hcollect := Emits.collect (Emits.fold out')
    rw [h] at hout
    obtain rfl := hcollect.symm.trans (Option.some.inj hout)
    exact h σ put s

/-! ## The buffer -/

/-- What the code makes of the end and the size of the buffer. -/
theorem cut_room {buf size : ℕ} (hbuf : buf < 2 ^ 32) (hsize : size < 2 ^ 32) :
    (if address (buf + size) < buf then (2 ^ 32 - 1, 2 ^ 32 - 1 - buf) else (address (buf + size), size)) =
      (buf + room buf size, room buf size) := by
  unfold address room
  by_cases hw : buf + size < 2 ^ 32
  · rw [Nat.mod_eq_of_lt hw, if_neg (by omega), Nat.min_eq_left (by omega)]
  · have hmod : (buf + size) % 2 ^ 32 = buf + size - 2 ^ 32 := by omega
    rw [hmod, if_pos (by omega), Nat.min_eq_right (by omega)]
    congr 1
    omega

/-- **Bounded formatting agrees with unbounded formatting**: `rt_vsnprintf` returns the length of the output,
changes nothing outside its room, and leaves there the beginning of the output and a `'\0'`. -/
theorem vsnprintf_bounded {buf size : ℕ} (mem : ℕ → Char) (hsize : size < 2 ^ 32)
    (hout : output special fmt args = some out) (hlen : buf + out.length < 2 ^ 32) :
    ∃ mem', rtVsnprintf special mem buf size fmt args = some (mem', BitVec.ofNat 32 out.length) ∧
      (∀ i, ¬(buf ≤ i ∧ i < buf + room buf size) → mem' i = mem i) ∧
      (0 < room buf size →
        (∀ i, i < min out.length (room buf size - 1) → some (mem' (buf + i)) = out[i]?) ∧
          mem' (buf + min out.length (room buf size - 1)) = '\x00') := by
  have hret : BitVec.ofNat 32 (buf + out.length) - BitVec.ofNat 32 buf = BitVec.ofNat 32 out.length := by
    rw [BitVec.ofNat_add, BitVec.add_comm, BitVec.add_sub_cancel]
  have hrun : rtVsnprintf special mem buf size fmt args = some
      (if 0 < room buf size then
        if buf + out.length < buf + room buf size then
          Function.update (stored mem buf (buf + room buf size) out) (buf + out.length) '\x00'
        else Function.update (stored mem buf (buf + room buf size) out) (buf + room buf size - 1) '\x00'
      else stored mem buf (buf + room buf size) out, BitVec.ofNat 32 out.length) := by
    unfold rtVsnprintf
    simp only [cut_room (Nat.lt_of_le_of_lt (Nat.le_add_right buf out.length) hlen) hsize,
      formatLoop_output hout, foldl_put hlen]
    rw [← hret]
    rfl
  refine ⟨_, hrun, ?_, ?_⟩
  · intro i hi
    split
    · split
      · rw [Function.update_of_ne (by omega), stored_outside hi]
      · rw [Function.update_of_ne (by omega), stored_outside hi]
    · exact stored_outside hi
  · intro hroom
    rw [if_pos hroom]
    by_cases hfit : out.length < room buf size
    · rw [if_pos (by omega), Nat.min_eq_left (by omega)]
      refine ⟨fun i hi => ?_, Function.update_self _ _ _⟩
      rw [Function.update_of_ne (by omega), stored_get hi (by omega)]
    · rw [if_neg (by omega), Nat.min_eq_right (by omega), Nat.add_sub_assoc hroom]
      refine ⟨fun i hi => ?_, Function.update_self _ _ _⟩
      rw [Function.update_of_ne (by omega), stored_get (by omega) (by omega)]

theorem vsnprintf_bounded_cut_short :
    ∃ mem', rtVsnprintf true (fun _ => ' ') 0x20000000 4 ['a', '%', '3', 'd'] [.int 7] = some (mem', 4) ∧
      (∀ i, ¬(0x20000000 ≤ i ∧ i < 0x20000004) → mem' i = ' ') ∧
      (mem' 0x20000000 = 'a' ∧ mem' 0x20000001 = ' ' ∧ mem' 0x20000002 = ' ' ∧ mem' 0x20000003 = '\x00') := by
  have hout : output true ['a', '%', '3', 'd'] [.int 7] = some ['a', ' ', ' ', '7'] := by
    have hconv : conversion true (fun l c => l ++ [c]) ['a'] ['3', 'd'] [.int 7] =
        some (['a', ' ', ' ', '7'], ⟨⟨false, true, false, false, false, false, false⟩, [], []⟩) := by
      rfl
    rw [output, formatLoop_literal _ _ (by decide) (by decide), formatLoop_percent]
    show (conversion true _ ['a'] ['3', 'd'] [.int 7]).bind _ = _
    rw [hconv, Option.bind_some, formatLoop_nil]
  have hlen : 0x20000000 + ['a', ' ', ' ', '7'].length < 2 ^ 32 := by decide
  obtain ⟨mem', hret, hframe, hwrote⟩ :=
    vsnprintf_bounded (fun _ => ' ') (show 4 < 2 ^ 32 by decide) hout hlen
  obtain ⟨hfirst, hlast⟩ := hwrote (by decide)
  have hchar : ∀ i, i < 3 → some (mem' (0x20000000 + i)) = (['a', ' ', ' ', '7'] : List Char)[i]? := hfirst
  exact ⟨mem', hret, hframe, Option.some.inj (hchar 0 (by decide)), Option.some.inj (hchar 1 (by decide)),
    Option.some.inj (hchar 2 (by decide)), hlast⟩

/-- A buffer up to the end of the address space loses a character; where the output ends there too, the `'\0'`
goes to the address 0. -/
theorem vsnprintf_cut :
    (output false ['a', 'b'] [] = some ['a', 'b'] ∧
      ∃ mem', rtVsnprintf false (fun _ => ' ') (2 ^ 32 - 3) 3 ['a', 'b'] [] = some (mem', 2) ∧
        mem' (2 ^ 32 - 3) = 'a' ∧ mem' (2 ^ 32 - 2) = '\x00') ∧
      ∃ mem', rtVsnprintf false (fun _ => ' ') (2 ^ 32 - 2) 2 ['a', 'b'] [] = some (mem', 2) ∧ mem' 0 = '\x00' := by
  have hloop : ∀ (σ : Type) (put : σ → Char → σ) (str : σ),
      formatLoop false put str ['a', 'b'] [] = some (put (put str 'a') 'b') := by
    intro σ put str
    rw [formatLoop_literal put str (by decide) (by decide), formatLoop_literal put _ (by decide) (by decide),
      formatLoop_nil]
  refine ⟨⟨hloop _ _ _, ?_⟩, ?_⟩
  · unfold rtVsnprintf
    simp only [hloop]
    exact ⟨_, rfl, rfl, rfl⟩
  · unfold rtVsnprintf
    simp only [hloop]
    exact ⟨_, rfl, rfl⟩

end RtThread.Kservice
