import Mathlib.Algebra.Group.Nat.Defs
import Mathlib.Data.List.Induction
import Mathlib.Logic.Function.Basic

/-!
# Writers and bounded buffers

A writer passes elements to a sink, one after the other. `Emits f out` says that the writer `f` passes `out` to
every sink, whatever the sink does with it.

* `Emits.comp`, `Emitter.ite`: writers one after the other, and one of two.
* `Emits.collect`: the sink that collects a list gets `out`.
* `foldl_put`: the sink that stores into a buffer with a bound.
* `foldl_put_last`: where the pointer goes round the address space, the last round is what stays.
* `Off.foldl_written`: a place that is written does not depend on what was there.
-/

namespace Emit

variable {α : Type}

/-- The writer `f` passes the elements `out` to every sink. -/
def Emits (f : ∀ σ : Type, (σ → α → σ) → σ → σ) (out : List α) : Prop :=
  ∀ (σ : Type) (put : σ → α → σ) (s : σ), f σ put s = out.foldl put s

section Writers

variable {f g : ∀ σ : Type, (σ → α → σ) → σ → σ} {out out' : List α}

/-- A writer behind another. -/
theorem Emits.comp (hg : Emits g out') (hf : Emits f out) :
    Emits (fun σ put s => g σ put (f σ put s)) (out ++ out') := by
  intro σ put s
  show g σ put (f σ put s) = _
  rw [hf, hg, List.foldl_append]

theorem Emits.nothing : Emits (α := α) (fun _ _ s => s) [] := fun _ _ _ => rfl

theorem Emits.one (x : α) : Emits (fun _ put s => put s x) [x] := fun _ _ _ => rfl

theorem Emits.fold (l : List α) : Emits (fun _ put s => l.foldl put s) l := fun _ _ _ => rfl

/-- A writer that a condition chooses. -/
theorem Emits.ite {p : Prop} [Decidable p] (hf : Emits f out) (hg : Emits g out') :
    Emits (fun σ put s => if p then f σ put s else g σ put s) (if p then out else out') := by
  by_cases hp : p
  · simpa only [hp, if_true] using hf
  · simpa only [hp, if_false] using hg

/-- What a collecting sink gets. -/
theorem Emits.collect (hf : Emits f out) : f (List α) (fun l x => l ++ [x]) [] = out := by
  have hfold : ∀ l acc : List α, l.foldl (fun l x => l ++ [x]) acc = acc ++ l := by
    intro l
    induction l with
    | nil => simp
    | cons x l ih => intro acc; simp [ih]
  rw [hf, hfold, List.nil_append]

/-- The writer `f` passes the same elements to every sink. -/
def Emitter (f : ∀ σ : Type, (σ → α → σ) → σ → σ) : Prop := ∃ out, Emits f out

theorem Emits.emitter (hf : Emits f out) : Emitter f := ⟨out, hf⟩

theorem Emitter.comp (hg : Emitter g) (hf : Emitter f) : Emitter (fun σ put s => g σ put (f σ put s)) := by
  obtain ⟨out', hg⟩ := hg
  obtain ⟨out, hf⟩ := hf
  exact ⟨out ++ out', hg.comp hf⟩

/-- A writer that a condition chooses. -/
theorem Emitter.ite {p : Prop} [Decidable p] (hf : Emitter f) (hg : Emitter g) :
    Emitter (fun σ put s => if p then f σ put s else g σ put s) := by
  by_cases hp : p
  · simpa only [hp, if_true] using hf
  · simpa only [hp, if_false] using hg

end Writers

section Readers

variable {β : Type}

/-- A writer that may fail, and that returns something: both whatever the sink is. -/
def Conveys (f : ∀ σ : Type, (σ → α → σ) → σ → Option (σ × β)) : Prop :=
  (∀ (σ : Type) (put : σ → α → σ) (s : σ), f σ put s = none) ∨
    ∃ (out : List α) (b : β), ∀ (σ : Type) (put : σ → α → σ) (s : σ), f σ put s = some (out.foldl put s, b)

theorem Conveys.fails : Conveys (α := α) (β := β) (fun _ _ _ => none) := .inl fun _ _ _ => rfl

/-- A writer that does not fail. -/
theorem Emitter.conveys {f : ∀ σ : Type, (σ → α → σ) → σ → σ} (hf : Emitter f) (b : β) :
    Conveys (fun σ put s => some (f σ put s, b)) := by
  obtain ⟨out, hf⟩ := hf
  refine .inr ⟨out, b, fun σ put s => ?_⟩
  show some (f σ put s, b) = _
  rw [hf]

end Readers

/-- A memory with a pointer into it. -/
structure Cursor (α : Type) where
  mem : ℕ → α
  str : ℕ

/-- Store where the pointer is, unless that is at the bound or behind it; the pointer of `w` bits goes on. -/
def Cursor.put (w bound : ℕ) (s : Cursor α) (x : α) : Cursor α where
  mem := if s.str < bound then Function.update s.mem s.str x else s.mem
  str := (s.str + 1) % 2 ^ w

/-- The memory with `out` from `buf` on, as far as the bound. -/
def stored (mem : ℕ → α) (buf bound : ℕ) (out : List α) : ℕ → α := fun i =>
  if buf ≤ i ∧ i < bound then (out[i - buf]?).getD (mem i) else mem i

theorem stored_outside {mem : ℕ → α} {buf bound i : ℕ} {out : List α} (hi : ¬(buf ≤ i ∧ i < bound)) :
    stored mem buf bound out i = mem i := if_neg hi

theorem stored_get {mem : ℕ → α} {buf bound i : ℕ} {out : List α} (hi : i < out.length) (hb : buf + i < bound) :
    some (stored mem buf bound out (buf + i)) = out[i]? := by
  unfold stored
  rw [if_pos ⟨Nat.le_add_right buf i, hb⟩, Nat.add_sub_cancel_left, List.getElem?_eq_getElem hi, Option.getD_some]

theorem stored_nil {mem : ℕ → α} {buf bound : ℕ} : stored mem buf bound [] = mem := by
  funext i
  simp [stored]

/-- The first element, and then the others. -/
theorem stored_cons {mem : ℕ → α} {buf bound : ℕ} {x : α} {out : List α} :
    stored (if buf < bound then Function.update mem buf x else mem) (buf + 1) bound out =
      stored mem buf bound (x :: out) := by
  have hother : ∀ i, i ≠ buf → (if buf < bound then Function.update mem buf x else mem) i = mem i := by
    intro i hne
    split
    · exact Function.update_of_ne hne x mem
    · rfl
  funext i
  unfold stored
  rcases Nat.lt_trichotomy i buf with hi | rfl | hi
  · rw [if_neg (by omega), hother i (by omega), if_neg (by omega)]
  · rw [if_neg (by omega), Nat.sub_self]
    by_cases hb : i < bound
    · rw [if_pos hb, if_pos ⟨Nat.le_refl i, hb⟩, Function.update_self, List.getElem?_cons_zero, Option.getD_some]
    · rw [if_neg hb, if_neg (by omega)]
  · rw [hother i (by omega), show i - buf = i - (buf + 1) + 1 by omega, List.getElem?_cons_succ]
    by_cases hb : i < bound
    · rw [if_pos (by omega), if_pos (by omega)]
    · rw [if_neg (by omega), if_neg (by omega)]

/-- **A bounded buffer** gets what is below its bound, and the pointer counts everything. -/
theorem foldl_put {w bound buf : ℕ} {mem : ℕ → α} {out : List α} (h : buf + out.length < 2 ^ w) :
    out.foldl (Cursor.put w bound) ⟨mem, buf⟩ = ⟨stored mem buf bound out, buf + out.length⟩ := by
  induction out generalizing mem buf with
  | nil =>
    rw [stored_nil]
    rfl
  | cons x out ih =>
    rw [List.length_cons] at h
    have hput : Cursor.put w bound ⟨mem, buf⟩ x =
        ⟨if buf < bound then Function.update mem buf x else mem, buf + 1⟩ := by
      unfold Cursor.put
      rw [Nat.mod_eq_of_lt (by simp only; omega)]
    rw [List.foldl_cons, hput, ih (by omega), List.length_cons, stored_cons, Nat.add_assoc, Nat.add_comm 1]

/-- A pointer behind the bound stores nothing before it goes round. -/
theorem foldl_put_above {w bound buf : ℕ} {mem : ℕ → α} {out : List α} (hb : bound ≤ buf)
    (h : buf + out.length ≤ 2 ^ w) : (out.foldl (Cursor.put w bound) ⟨mem, buf⟩).mem = mem := by
  induction out generalizing buf with
  | nil => rfl
  | cons x out ih =>
    rw [List.length_cons] at h
    have hput : Cursor.put w bound ⟨mem, buf⟩ x = ⟨mem, (buf + 1) % 2 ^ w⟩ := by
      unfold Cursor.put
      rw [if_neg (by simp only; omega)]
    rw [List.foldl_cons, hput]
    cases out with
    | nil => rfl
    | cons y out =>
      rw [List.length_cons] at h
      rw [Nat.mod_eq_of_lt (by omega)]
      exact ih (by omega) (by rw [List.length_cons]; omega)

/-- The pointer counts round the address space. -/
theorem foldl_put_str {w bound buf : ℕ} {mem : ℕ → α} {out : List α} (h : buf < 2 ^ w) :
    (out.foldl (Cursor.put w bound) ⟨mem, buf⟩).str = (buf + out.length) % 2 ^ w := by
  induction out using List.reverseRecOn with
  | nil => exact (Nat.mod_eq_of_lt h).symm
  | append_singleton out x ih =>
    rw [List.foldl_append, List.length_append]
    show ((out.foldl (Cursor.put w bound) ⟨mem, buf⟩).str + 1) % 2 ^ w = _
    rw [ih, Nat.mod_add_mod, Nat.add_assoc]
    rfl

/-- An element stays where it was stored until the pointer has gone round. -/
theorem foldl_put_last {w bound buf i : ℕ} {mem : ℕ → α} {out : List α} (h : buf < 2 ^ w) (hi : i < out.length)
    (hlast : out.length ≤ i + 2 ^ w) (hb : (buf + i) % 2 ^ w < bound) :
    some ((out.foldl (Cursor.put w bound) ⟨mem, buf⟩).mem ((buf + i) % 2 ^ w)) = out[i]? := by
  induction out using List.reverseRecOn with
  | nil => exact absurd hi (Nat.not_lt_zero i)
  | append_singleton out x ih =>
    have hstr : (out.foldl (Cursor.put w bound) ⟨mem, buf⟩).str = (buf + out.length) % 2 ^ w := foldl_put_str h
    have hlen : (out ++ [x]).length = out.length + 1 := List.length_append
    rw [hlen] at hi hlast
    rw [List.foldl_append]
    show some ((Cursor.put w bound (out.foldl (Cursor.put w bound) ⟨mem, buf⟩) x).mem _) = _
    generalize out.foldl (Cursor.put w bound) ⟨mem, buf⟩ = s at ih hstr
    unfold Cursor.put
    simp only [hstr]
    rcases Nat.lt_or_ge i out.length with hlt | hge
    · -- the pointer is not there again
      have hne : (buf + i) % 2 ^ w ≠ (buf + out.length) % 2 ^ w := by
        intro heq
        have hzero := Nat.sub_mod_eq_zero_of_mod_eq heq.symm
        rw [Nat.mod_eq_of_lt (by omega)] at hzero
        omega
      rw [List.getElem?_append_left hlt, ← ih hlt (by omega)]
      split
      · rw [Function.update_of_ne hne]
      · rfl
    · obtain rfl : i = out.length := by omega
      rw [if_pos hb, Function.update_self, List.getElem?_concat_length]

/-! ## Memories that differ in one place -/

/-- The memories agree but at `a`. -/
def Off (a : ℕ) (mem mem' : ℕ → α) : Prop := ∀ i, i ≠ a → mem' i = mem i

section

variable {a b bound buf w : ℕ} {mem mem' : ℕ → α} {x : α} {out : List α}

theorem Off.update (h : Off a mem mem') : Off a (Function.update mem b x) (Function.update mem' b x) := by
  intro i hi
  by_cases hb : i = b
  · rw [hb, Function.update_self, Function.update_self]
  · rw [Function.update_of_ne hb, Function.update_of_ne hb, h i hi]

/-- A store in that place makes them equal. -/
theorem Off.written (h : Off a mem mem') : Function.update mem' a x = Function.update mem a x := by
  funext i
  by_cases hi : i = a
  · rw [hi, Function.update_self, Function.update_self]
  · rw [Function.update_of_ne hi, Function.update_of_ne hi, h i hi]

theorem Off.put (h : Off a mem mem') :
    ∃ m m', Cursor.put w bound ⟨mem, buf⟩ x = ⟨m, (buf + 1) % 2 ^ w⟩ ∧
      Cursor.put w bound ⟨mem', buf⟩ x = ⟨m', (buf + 1) % 2 ^ w⟩ ∧ Off a m m' ∧ (buf = a → a < bound → m' = m) := by
  refine ⟨_, _, rfl, rfl, ?_, ?_⟩
  · simp only
    split
    · exact h.update
    · exact h
  · rintro rfl hlt
    simp only [hlt, if_true]
    exact h.written

theorem Off.foldl_put (h : Off a mem mem') : Off a (out.foldl (Cursor.put w bound) ⟨mem, buf⟩).mem
    (out.foldl (Cursor.put w bound) ⟨mem', buf⟩).mem := by
  induction out generalizing mem mem' buf with
  | nil => exact h
  | cons x out ih =>
    obtain ⟨m, m', hm, hm', hoff, -⟩ := @Off.put α a bound buf w mem mem' x h
    rw [List.foldl_cons, List.foldl_cons, hm, hm']
    exact ih hoff

/-- A writer that comes to that place makes them equal. -/
theorem Off.foldl_written {i : ℕ} (h : Off a mem mem') (hi : i < out.length) (ha : (buf + i) % 2 ^ w = a)
    (hbuf : buf < 2 ^ w) (hlt : a < bound) :
    out.foldl (Cursor.put w bound) ⟨mem', buf⟩ = out.foldl (Cursor.put w bound) ⟨mem, buf⟩ := by
  induction out generalizing mem mem' buf i with
  | nil => exact absurd hi (Nat.not_lt_zero i)
  | cons x out ih =>
    obtain ⟨m, m', hm, hm', hoff, hsame⟩ := @Off.put α a bound buf w mem mem' x h
    rw [List.foldl_cons, List.foldl_cons, hm, hm']
    cases i with
    | zero =>
      rw [Nat.add_zero, Nat.mod_eq_of_lt hbuf] at ha
      rw [hsame ha hlt]
    | succ i =>
      refine ih hoff (Nat.lt_of_succ_lt_succ hi) ?_ (Nat.mod_lt _ (Nat.two_pow_pos w))
      rw [Nat.mod_add_mod, Nat.add_assoc, Nat.add_comm 1, ha]

end

end Emit
