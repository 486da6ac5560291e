import Mathlib.Data.List.Basic
import Mathlib.Data.Nat.Notation
import Mathlib.Data.List.DropRight

/-!
# Texts with a cursor, and their completion

A `Cursor` is a text cut where the next character goes. A text is completed with the longest text that continues it in
the same way as every name that begins with it.

* `le_complete`, `complete_le`, `complete_longest`: what a completion is, as an order on texts.
-/

namespace Editing

/-! ## The cursor -/

structure Cursor (α : Type*) where
  before : List α
  after : List α

namespace Cursor

variable {α : Type*}

def text (c : Cursor α) : List α := c.before ++ c.after

/-- An empty line. -/
def empty : Cursor α := ⟨[], []⟩

/-- A line with the cursor at its end. -/
def atEnd (text : List α) : Cursor α := ⟨text, []⟩

def insert (c : Cursor α) (a : α) : Cursor α := ⟨c.before ++ [a], c.after⟩

/-- The cell before the cursor goes. -/
def backspace (c : Cursor α) : Cursor α := ⟨c.before.dropLast, c.after⟩

def left (c : Cursor α) : Cursor α := ⟨c.before.dropLast, c.before.getLast?.toList ++ c.after⟩

def right (c : Cursor α) : Cursor α := ⟨c.before ++ c.after.head?.toList, c.after.tail⟩

theorem before_le (c : Cursor α) : c.before.length ≤ c.text.length := by
  rw [text, List.length_append]
  exact Nat.le_add_right _ _

@[simp] theorem text_empty : (empty : Cursor α).text = [] := rfl

@[simp] theorem text_atEnd (t : List α) : (atEnd t).text = t := List.append_nil t

@[simp] theorem text_insert (c : Cursor α) (a : α) : (c.insert a).text = c.before ++ a :: c.after := by
  simp [text, insert]

@[simp] theorem text_left (c : Cursor α) : c.left.text = c.text := by
  rcases List.eq_nil_or_concat c.before with h | ⟨b, a, h⟩ <;> simp [text, left, h]

@[simp] theorem text_right (c : Cursor α) : c.right.text = c.text := by
  cases h : c.after <;> simp [text, right, h]

end Cursor

/-! ## Common beginnings -/

variable {α : Type*} [DecidableEq α]

/-- The longest common beginning. -/
def common : List α → List α → List α
  | a :: as, b :: bs => if a = b then a :: common as bs else []
  | _, _ => []

theorem common_le_left (s t : List α) : common s t <+: s := by
  induction s generalizing t with
  | nil => exact List.nil_prefix
  | cons a s ih =>
    cases t with
    | nil => exact List.nil_prefix
    | cons b t =>
      unfold common
      split
      · exact (List.prefix_cons_inj a).2 (ih t)
      · exact List.nil_prefix

theorem common_comm (s t : List α) : common s t = common t s := by
  induction s generalizing t with
  | nil => cases t <;> rfl
  | cons a s ih =>
    cases t with
    | nil => rfl
    | cons b t =>
      unfold common
      by_cases h : a = b
      · rw [if_pos h, if_pos h.symm, ih t, h]
      · rw [if_neg h, if_neg (Ne.symm h)]

theorem common_le_right (s t : List α) : common s t <+: t := common_comm s t ▸ common_le_left t s

/-- **It is the longest.** -/
theorem le_common {p s t : List α} (hs : p <+: s) (ht : p <+: t) : p <+: common s t := by
  induction p generalizing s t with
  | nil => exact List.nil_prefix
  | cons a p ih =>
    obtain ⟨s', rfl⟩ := hs
    obtain ⟨t', rfl⟩ := ht
    simp only [List.cons_append, common, if_true]
    exact (List.prefix_cons_inj a).2 (ih (List.prefix_append p s') (List.prefix_append p t'))

/-- The common beginning of the names that begin with `typed`, or `typed` if there is none. -/
def complete (typed : List α) (names : List (List α)) : List α :=
  match names.filter (typed.isPrefixOf ·) with
  | [] => typed
  | name :: rest => rest.foldl common name

theorem foldl_common_le (name : List α) (rest : List (List α)) :
    ∀ n ∈ name :: rest, rest.foldl common name <+: n := by
  induction rest generalizing name with
  | nil =>
    intro n hn
    rw [List.mem_singleton.1 hn]
    exact List.prefix_rfl
  | cons m rest ih =>
    intro n hn
    have hm := ih (common name m)
    rcases List.mem_cons.1 hn with rfl | hn
    · exact (hm _ List.mem_cons_self).trans (common_le_left _ _)
    · rcases List.mem_cons.1 hn with rfl | hn
      · exact (hm _ List.mem_cons_self).trans (common_le_right _ _)
      · exact hm _ (List.mem_cons_of_mem _ hn)

theorem le_foldl_common {p name : List α} {rest : List (List α)} (h : ∀ n ∈ name :: rest, p <+: n) :
    p <+: rest.foldl common name := by
  induction rest generalizing name with
  | nil => exact h _ List.mem_cons_self
  | cons m rest ih =>
    apply ih
    intro n hn
    rcases List.mem_cons.1 hn with rfl | hn
    · exact le_common (h _ List.mem_cons_self) (h _ (List.mem_cons_of_mem _ List.mem_cons_self))
    · exact h _ (List.mem_cons_of_mem _ (List.mem_cons_of_mem _ hn))

/-- **A completion continues what is typed,** -/
theorem le_complete (typed : List α) (names : List (List α)) : typed <+: complete typed names := by
  unfold complete
  split
  · exact List.prefix_rfl
  · rename_i name rest hf
    apply le_foldl_common
    intro n hn
    rw [← hf, List.mem_filter] at hn
    exact List.isPrefixOf_iff_prefix.1 hn.2

/-- **fits every name that does,** -/
theorem complete_le {typed n : List α} {names : List (List α)} (hn : n ∈ names) (ht : typed <+: n) :
    complete typed names <+: n := by
  have hf : n ∈ names.filter (typed.isPrefixOf ·) := List.mem_filter.2 ⟨hn, List.isPrefixOf_iff_prefix.2 ht⟩
  unfold complete
  split
  · rename_i he
    rw [he] at hf
    exact absurd hf List.not_mem_nil
  · rename_i name rest he
    rw [he] at hf
    exact foldl_common_le name rest n hf

/-- **and is the longest that does.** -/
theorem complete_longest {typed p : List α} {names : List (List α)} (hne : ∃ n ∈ names, typed <+: n)
    (hp : ∀ n ∈ names, typed <+: n → p <+: n) : p <+: complete typed names := by
  obtain ⟨n, hn, ht⟩ := hne
  have hf : n ∈ names.filter (typed.isPrefixOf ·) := List.mem_filter.2 ⟨hn, List.isPrefixOf_iff_prefix.2 ht⟩
  unfold complete
  split
  · rename_i he
    rw [he] at hf
    exact absurd hf List.not_mem_nil
  · rename_i name rest he
    apply le_foldl_common
    intro m hm
    rw [← he, List.mem_filter] at hm
    exact hp m hm.1 (List.isPrefixOf_iff_prefix.1 hm.2)

/-- Its cells are those of the text and of the names. -/
theorem mem_complete {typed : List α} {names : List (List α)} {a : α} (h : a ∈ complete typed names) :
    a ∈ typed ∨ ∃ n ∈ names, a ∈ n := by
  unfold complete at h
  split at h
  · exact .inl h
  · rename_i name rest he
    have hname : name ∈ names.filter (typed.isPrefixOf ·) := he ▸ List.mem_cons_self
    exact .inr ⟨name, (List.mem_filter.1 hname).1, (foldl_common_le name rest name List.mem_cons_self).subset h⟩

end Editing
