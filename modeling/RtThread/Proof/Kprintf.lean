import RtThread.Spec.Kprintf
import RtThread.Proof.Printf

/-!
# What the printers hand to their devices

* `kprintf_hands`: **`rt_kprintf`** hands over its text when that is shorter than the buffer less one byte
  (`shown_iff`); behind that it hands over the `'\0'`.
* `atVprintf_hands`: **`at_vprintf`** hands over its text when that fits; behind that it hands over the `'\0'` and
  what lies behind the buffer.
-/

namespace RtThread.Kservice

open Emit

variable {special : Bool} {n buf : ℕ} {mem : ℕ → Char} {fmt text : List Char} {args : List Arg} {dev : Device}

theorem handed_length (mem : ℕ → Char) (w : Write) : (handed mem w).length = w.size.toNat := by
  unfold handed
  rw [List.length_map, List.length_range]

/-- The bytes that lie in the buffer are a list. -/
theorem handed_eq {w : Write} {l : List Char} (hlen : w.size.toNat = l.length) (hb : w.buffer + l.length ≤ 2 ^ 32)
    (h : ∀ i, i < l.length → some (mem (w.buffer + i)) = l[i]?) : handed mem w = l := by
  apply List.ext_getElem?
  intro i
  by_cases hi : i < l.length
  · rw [← h i hi]
    unfold handed
    rw [List.getElem?_map, List.getElem?_range (by omega), Option.map_some]
    unfold address
    rw [Nat.mod_eq_of_lt (by omega)]
  · rw [List.getElem?_eq_none (by rw [handed_length]; omega), List.getElem?_eq_none (by omega)]

theorem handed_get {w : Write} {i : ℕ} (hi : i < w.size.toNat) (hb : w.buffer + i < 2 ^ 32) :
    (handed mem w)[i]? = some (mem (w.buffer + i)) := by
  unfold handed
  rw [List.getElem?_map, List.getElem?_range hi, Option.map_some]
  unfold address
  rw [Nat.mod_eq_of_lt hb]

/-! ## `rt_kprintf` -/

/-- Texts that do not go round the address space are shown up to two bytes less than the buffer. -/
theorem shown_iff (hn : 1 < n) (hlt : buf + text.length < 2 ^ 32) : Shown n buf text ↔ text.length + 2 ≤ n := by
  have hzero : text.length / 2 ^ 32 = 0 := Nat.div_eq_of_lt (by omega)
  unfold Shown address
  rw [Nat.mod_eq_of_lt hlt, hzero, Nat.zero_mul, List.drop_zero]
  constructor
  · rintro ⟨h, -⟩
    omega
  · intro h
    exact ⟨by omega, List.take_prefix _ _⟩

/-- What `rt_vsnprintf` returns: the length of the text. -/
theorem returned_eq (buf len : ℕ) :
    BitVec.ofNat 32 (address (buf + len)) - BitVec.ofNat 32 buf = BitVec.ofNat 32 len := by
  have hmod : BitVec.ofNat 32 (address (buf + len)) = BitVec.ofNat 32 (buf + len) := by
    apply BitVec.eq_of_toNat_eq
    unfold address
    rw [BitVec.toNat_ofNat, BitVec.toNat_ofNat, Nat.mod_mod]
  rw [hmod, BitVec.ofNat_add, BitVec.add_comm, BitVec.add_sub_cancel]

/-- A run of `rt_vsnprintf` whose buffer lies in the address space. -/
theorem rtVsnprintf_eq {size : ℕ} (mem : ℕ → Char) (hsize : 0 < size) (hbuf : buf + size < 2 ^ 32)
    (hout : output special fmt args = some text) :
    rtVsnprintf special mem buf size fmt args = some
      (Function.update (text.foldl (Cursor.put 32 (buf + size)) ⟨mem, buf⟩).mem (nulAt buf size text.length) '\x00',
        BitVec.ofNat 32 text.length) := by
  have hend : address (buf + size) = buf + size := Nat.mod_eq_of_lt hbuf
  have hstr : (text.foldl (Cursor.put 32 (buf + size)) ⟨mem, buf⟩).str = address (buf + text.length) :=
    foldl_put_str (by omega)
  have hret := returned_eq buf text.length
  unfold rtVsnprintf
  simp only [hend, if_neg (show ¬buf + size < buf by omega), formatLoop_output hout, hstr, hret, if_pos hsize,
    Option.bind_eq_bind, Option.bind_some, Option.pure_def, Option.some.injEq, Prod.mk.injEq, and_true]
  unfold nulAt
  split <;> rfl

/-- The characters that `rt_kprintf` passes, before the `'\0'`. -/
theorem kprintf_bytes {size len : ℕ} {w : Write} (mem : ℕ → Char) (hbuf : buf + size < 2 ^ 32) (hw : w.buffer = buf)
    (hlen : w.size.toNat = min (text.length % 2 ^ 32) size) (hat : address (buf + text.length) < buf + size)
    (hmod : len = text.length / 2 ^ 32 * 2 ^ 32) :
    handed (Function.update (text.foldl (Cursor.put 32 (buf + size)) ⟨mem, buf⟩).mem
      (nulAt buf size text.length) '\x00') w = (text.drop len).take size := by
  have hdm : text.length / 2 ^ 32 * 2 ^ 32 + text.length % 2 ^ 32 = text.length := Nat.div_add_mod' _ _
  have hlength : ((text.drop len).take size).length = min (text.length % 2 ^ 32) size := by
    rw [List.length_take, List.length_drop]
    omega
  apply handed_eq
  · rw [hlen, hlength]
  · rw [hw, hlength]
    omega
  · intro i hi
    rw [hlength] at hi
    have haddr : (buf + (len + i)) % 2 ^ 32 = buf + i := by
      rw [hmod, Nat.add_left_comm, Nat.mul_add_mod_self_right, Nat.mod_eq_of_lt (by omega)]
    have hne : buf + i ≠ nulAt buf size text.length := by
      unfold nulAt address at *
      rw [if_pos hat]
      omega
    have hlast : some ((text.foldl (Cursor.put 32 (buf + size)) ⟨mem, buf⟩).mem ((buf + (len + i)) % 2 ^ 32)) =
        text[len + i]? := foldl_put_last (by omega) (by omega) (by omega) (by omega)
    rw [haddr] at hlast
    rw [hw, Function.update_of_ne hne, hlast, List.getElem?_take_of_lt (by omega), List.getElem?_drop]

/-- **`rt_kprintf` hands over its text** as far as the condition says. -/
theorem kprintf_hands (special : Bool) (buf : ℕ) (mem : ℕ → Char) (dev : Device) (hn : 1 < n) (hbuf : buf + n ≤ 2 ^ 32)
    (hout : output special fmt args = some text) :
    ∃ mem' w, rtKprintf special n mem buf (some dev) fmt args =
        some (mem', some dev, .write (dev.openFlag ||| rtDeviceFlagStream) w) ∧
      (HandsText mem' w buf n (nulAt buf (n - 1) text.length) text ↔ Shown n buf text) := by
  have hend : buf + (n - 1) < 2 ^ 32 := by omega
  have hrun := rtVsnprintf_eq mem (show 0 < n - 1 by omega) hend hout
  refine ⟨_, _, by unfold rtKprintf; rw [hrun]; rfl, ?_⟩
  generalize hlength : (if BitVec.ofNat 32 (n - 1) < BitVec.ofNat 32 text.length then BitVec.ofNat 32 (n - 1)
    else BitVec.ofNat 32 text.length) = length
  have hlen : length.toNat = min (text.length % 2 ^ 32) (n - 1) := by
    rw [← hlength]
    split
    all_goals
      rename_i h
      rw [BitVec.lt_def, BitVec.toNat_ofNat, BitVec.toNat_ofNat] at h
      rw [BitVec.toNat_ofNat]
      omega
  by_cases hat : address (buf + text.length) < buf + (n - 1)
  · have hbytes := kprintf_bytes (w := ⟨buf, length⟩) mem hend rfl hlen hat rfl
    constructor
    · intro h
      exact ⟨hat, hbytes ▸ h.start⟩
    · rintro ⟨-, hstart⟩
      refine ⟨rfl, by rw [hlen]; omega, ?_, hbytes ▸ hstart, fun hfits => ?_⟩
      · unfold nulAt
        rw [if_pos hat, hlen]
        unfold address
        omega
      · -- the text does not go round the address space
        unfold address at hat
        have hzero : text.length / 2 ^ 32 = 0 := Nat.div_eq_of_lt (by omega)
        rw [hbytes, hzero, Nat.zero_mul, List.drop_zero, List.take_of_length_le (by omega)]
  · constructor
    · intro h
      refine absurd ?_ h.noNul
      unfold nulAt
      rw [if_neg hat, hlen]
      unfold address at hat
      omega
    · rintro ⟨h, -⟩
      exact absurd h hat

/-! ## `at_vprintf` -/

variable {Args : Type} {l : Libc Args} {a : Args}

/-- **`at_vprintf` hands over its text** if that fits the buffer with its `'\0'`. -/
theorem atVprintf_hands (buf : ℕ) (mem : ℕ → Char) (hl : l.Standard) (hn : 0 < n) (hint : n < 2 ^ 31) (hbuf : buf + n ≤ 2 ^ 32)
    (htext : l.text fmt a = some text) :
    HandsText (atVprintf l n mem buf fmt a).1 (atVprintf l n mem buf fmt a).2.2 buf n
      (buf + min text.length (n - 1)) text ↔ text.length < n := by
  show HandsText (l.vsnprintf mem buf n fmt a).1 ⟨buf, (l.vsnprintf mem buf n fmt a).2⟩ buf n _ text ↔ _
  rcases Nat.lt_or_ge text.length (2 ^ 31) with hlt | hge
  · have hret := hl.length mem buf n fmt a text htext hn hbuf hlt
    have hlen : (l.vsnprintf mem buf n fmt a).2.toNat = text.length := by
      rw [hret, BitVec.toNat_ofNat, Nat.mod_eq_of_lt (by omega)]
    constructor
    · intro h
      have hnul := h.noNul
      simp only [hlen] at hnul
      omega
    · intro hfits
      have hbytes : handed (l.vsnprintf mem buf n fmt a).1 ⟨buf, (l.vsnprintf mem buf n fmt a).2⟩ = text := by
        refine handed_eq hlen (by simp only; omega) fun i hi => ?_
        exact hl.chars mem buf n fmt a text htext hn hbuf hlt i (by omega)
      refine ⟨rfl, by simp only [hlen]; omega, by simp only [hlen]; omega, ?_, fun _ => hbytes⟩
      exact ⟨[], by rw [hbytes, List.append_nil]⟩
  · -- the negative length is that of more bytes than the buffer has
    have hneg := hl.overflow mem buf n fmt a text htext hn hbuf hge
    rw [BitVec.toInt_neg_iff] at hneg
    constructor
    · intro h
      have hinside := h.inside
      simp only at hinside
      omega
    · intro h
      omega

/-- **The printers hand over formatted text** exactly where it is short enough. -/
theorem printers_hand_text {n' : ℕ} (special : Bool) (buf buf' : ℕ) (mem : ℕ → Char) (dev : Device) (hl : l.Standard) (hn : 1 < n)
    (hbuf : buf + n ≤ 2 ^ 32) (hn' : 0 < n') (hint : n' < 2 ^ 31) (hbuf' : buf' + n' ≤ 2 ^ 32) :
    (∀ fmt args text, output special fmt args = some text →
      ∃ mem' w, rtKprintf special n mem buf (some dev) fmt args =
          some (mem', some dev, .write (dev.openFlag ||| rtDeviceFlagStream) w) ∧
        (HandsText mem' w buf n (nulAt buf (n - 1) text.length) text ↔ Shown n buf text)) ∧
    ∀ fmt a text, l.text fmt a = some text →
      (HandsText (atVprintf l n' mem buf' fmt a).1 (atVprintf l n' mem buf' fmt a).2.2 buf' n'
        (buf' + min text.length (n' - 1)) text ↔ text.length < n') :=
  ⟨fun _ _ _ hout => kprintf_hands special buf mem dev hn hbuf hout,
    fun _ _ _ htext => atVprintf_hands buf' mem hl hn' hint hbuf' htext⟩

/-! ## A C library, and texts that are too long -/

/-- A C library whose texts are those of `rt_vsnprintf`. -/
def Libc.plain : Libc (List Arg) where
  text := output true
  vsnprintf mem buf n fmt args :=
    match output true fmt args with
    | none => (mem, -1)
    | some text =>
      if text.length < 2 ^ 31 then
        (Function.update (stored mem buf (buf + (n - 1)) text) (buf + min text.length (n - 1)) '\x00',
          BitVec.ofNat 32 text.length)
      else (mem, -1)

theorem Libc.plain_short {fmt text : List Char} {args : List Arg} (mem : ℕ → Char) (buf n : ℕ)
    (h : output true fmt args = some text) (hlt : text.length < 2 ^ 31) :
    Libc.plain.vsnprintf mem buf n fmt args =
      (Function.update (stored mem buf (buf + (n - 1)) text) (buf + min text.length (n - 1)) '\x00',
        BitVec.ofNat 32 text.length) := by
  unfold Libc.plain
  simp only [h, if_pos hlt]

theorem Libc.plain_standard : Libc.plain.Standard where
  length mem buf n fmt args text htext hn hb hlt := by
    rw [Libc.plain_short mem buf n htext hlt]
  chars mem buf n fmt args text htext hn hb hlt i hi := by
    rw [Libc.plain_short mem buf n htext hlt]
    show some (Function.update _ _ _ (buf + i)) = _
    rw [Function.update_of_ne (by omega), stored_get (by omega) (by omega)]
  nul mem buf n fmt args text htext hn hb hlt := by
    rw [Libc.plain_short mem buf n htext hlt]
    exact Function.update_self _ _ _
  frame mem buf n fmt args hn hb i hi := by
    cases htext : output true fmt args with
    | none =>
      unfold Libc.plain
      simp only [htext]
    | some text =>
      rcases Nat.lt_or_ge text.length (2 ^ 31) with hlt | hge
      · rw [Libc.plain_short mem buf n htext hlt]
        show Function.update _ _ _ i = _
        rw [Function.update_of_ne (by omega), stored_outside (by omega)]
      · unfold Libc.plain
        simp only [htext, if_neg (Nat.not_lt.2 hge)]
  overflow mem buf n fmt args text htext hn hb hge := by
    have hout : output true fmt args = some text := htext
    unfold Libc.plain
    simp only [hout, if_neg (Nat.not_lt.2 hge)]
    decide

/-- A format without conversions is its own text. -/
theorem output_literal (h : ∀ c, c ∈ fmt → c ≠ '\x00' ∧ c ≠ '%') : output special fmt args = some fmt := by
  have hloop : ∀ (fmt acc : List Char), (∀ c, c ∈ fmt → c ≠ '\x00' ∧ c ≠ '%') →
      formatLoop special (fun l c => l ++ [c]) acc fmt args = some (acc ++ fmt) := by
    intro fmt
    induction fmt with
    | nil =>
      intro acc _
      rw [formatLoop_nil, List.append_nil]
    | cons c fmt ih =>
      intro acc hall
      obtain ⟨hz, hp⟩ := hall c (List.mem_cons_self ..)
      rw [formatLoop_literal _ _ hz hp, ih _ fun x hx => hall x (List.mem_cons_of_mem c hx), List.append_assoc]
      rfl
  exact hloop fmt [] h

theorem output_replicate {special : Bool} {args : List Arg} (k : ℕ) :
    output special (List.replicate k 'a') args = some (List.replicate k 'a') := by
  refine output_literal fun c hc => ?_
  rw [List.eq_of_mem_replicate hc]
  decide

/-- A text that fits, on the console and to the AT device. -/
theorem printers_hand_text_short :
    (∃ mem' w, rtKprintf true 128 (fun _ => ' ') 0x20000000 (some ⟨3⟩) (List.replicate 2 'a') [] =
        some (mem', some ⟨3⟩, .write 0x43 w) ∧
      HandsText mem' w 0x20000000 128 (nulAt 0x20000000 127 2) (List.replicate 2 'a')) ∧
    HandsText (atVprintf Libc.plain 128 (fun _ => ' ') 0x20000100 (List.replicate 2 'a') []).1
      (atVprintf Libc.plain 128 (fun _ => ' ') 0x20000100 (List.replicate 2 'a') []).2.2 0x20000100 128 0x20000102
      (List.replicate 2 'a') := by
  obtain ⟨hk, hat⟩ := printers_hand_text true 0x20000000 0x20000100 (fun _ => ' ') ⟨3⟩ Libc.plain_standard
    (show 1 < 128 by decide) (by decide) (show 0 < 128 by decide) (by decide) (by decide)
  obtain ⟨mem', w, hrun, hiff⟩ := hk (List.replicate 2 'a') [] _ (output_replicate 2)
  refine ⟨⟨mem', w, hrun, hiff.2 ((shown_iff (by decide) (by decide)).2 (by decide))⟩, ?_⟩
  exact (hat (List.replicate 2 'a') [] _ (output_replicate 2)).2 (by decide)

/-- A text of one byte less than `rt_log_buf` fits, and is handed over cut, with the `'\0'`; a text as long as
`send_buf` with its `'\0'`. -/
theorem printers_hand_nul :
    (∃ mem' w, rtKprintf true 128 (fun _ => ' ') 0x20000000 (some ⟨3⟩) (List.replicate 127 'a') [] =
        some (mem', some ⟨3⟩, .write 0x43 w) ∧
      ¬HandsText mem' w 0x20000000 128 (nulAt 0x20000000 127 127) (List.replicate 127 'a')) ∧
    ¬HandsText (atVprintf Libc.plain 128 (fun _ => ' ') 0x20000100 (List.replicate 128 'a') []).1
      (atVprintf Libc.plain 128 (fun _ => ' ') 0x20000100 (List.replicate 128 'a') []).2.2 0x20000100 128 0x2000017f
      (List.replicate 128 'a') := by
  constructor
  · obtain ⟨mem', w, hrun, hiff⟩ := kprintf_hands true 0x20000000 (fun _ => ' ') ⟨3⟩ (show 1 < 128 by decide)
      (by decide) (output_replicate 127)
    refine ⟨mem', w, hrun, fun h => ?_⟩
    rw [shown_iff (by decide) (by rw [List.length_replicate]; decide), List.length_replicate] at hiff
    exact absurd (hiff.1 h) (by decide)
  · have hiff := atVprintf_hands (a := []) 0x20000100 (fun _ => ' ') Libc.plain_standard (show 0 < 128 by decide) (by decide)
      (by decide) (output_replicate 128)
    rw [List.length_replicate] at hiff
    exact fun h => absurd (hiff.1 h) (by decide)

end RtThread.Kservice
