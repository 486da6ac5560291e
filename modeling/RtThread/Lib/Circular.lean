import Mathlib.Data.List.Nodup

/-!
# Circular doubly linked lists

Nodes are linked through `next` and `prev`, and `Circular next prev l` says that the nodes of the list that
starts at the first one of `l` are `l`: both directions agree, and the last one is linked to the first.

* `Circular.insert`: a node goes in behind another one.
* `Circular.remove`: the node behind another one goes out.

Both say what they need of the links after the change, at the nodes of the list only.
-/

variable {α : Type*}

/-- From `a` over the nodes `l` to `b`. -/
def Circular.Path (next prev : α → α) : α → List α → α → Prop
  | a, [], b => next a = b ∧ prev b = a
  | a, x :: l, b => (next a = x ∧ prev x = a) ∧ Circular.Path next prev x l b

/-- The nodes `l` are linked to a circle. -/
def Circular (next prev : α → α) : List α → Prop
  | [] => True
  | h :: l => Circular.Path next prev h l h

variable {next prev next' prev' : α → α} {a b x : α} {l r : List α}

namespace Circular

namespace Path

theorem append : Path next prev a (l ++ x :: r) b ↔ Path next prev a l x ∧ Path next prev x r b := by
  induction l generalizing a with
  | nil => exact Iff.rfl
  | cons y l ih =>
    show _ ∧ Path next prev y (l ++ x :: r) b ↔ (_ ∧ Path next prev y l x) ∧ _
    rw [ih, ← and_assoc]

/-- A path depends on the links along it. -/
theorem congr (hn : ∀ y ∈ a :: l, next' y = next y) (hp : ∀ y ∈ l ++ [b], prev' y = prev y)
    (h : Path next prev a l b) : Path next' prev' a l b := by
  induction l generalizing a with
  | nil =>
    obtain ⟨h₁, h₂⟩ := h
    exact ⟨(hn a List.mem_cons_self).trans h₁, (hp b List.mem_cons_self).trans h₂⟩
  | cons x l ih =>
    obtain ⟨⟨h₁, h₂⟩, h⟩ := h
    refine ⟨⟨(hn a List.mem_cons_self).trans h₁, (hp x List.mem_cons_self).trans h₂⟩, ?_⟩
    exact ih (fun y hy => hn y (List.mem_cons_of_mem _ hy)) (fun y hy => hp y (List.mem_cons_of_mem _ hy)) h

/-- The first link. -/
theorem first (h : Path next prev a l b) : next a = l.headD b ∧ prev (l.headD b) = a := by
  cases l with
  | nil => exact h
  | cons x l => exact h.1

theorem headD_mem (l : List α) (b : α) : l.headD b ∈ l ++ [b] := by
  cases l with
  | nil => exact List.mem_cons_self
  | cons x l => exact List.mem_cons_self

/-- **A node goes in behind the first one.** -/
theorem push (h : Path next prev a l b) (hnd : (l ++ [b]).Nodup) (hax : next' a = x) (hxa : prev' x = a)
    (hxn : next' x = next a) (hnx : prev' (next a) = x) (hn : ∀ y ∈ l, next' y = next y)
    (hp : ∀ y ∈ l ++ [b], y ≠ next a → prev' y = prev y) : Path next' prev' a (x :: l) b := by
  refine ⟨⟨hax, hxa⟩, ?_⟩
  rw [h.first.1] at hxn hnx hp
  cases l with
  | nil => exact ⟨hxn, hnx⟩
  | cons y l =>
    obtain ⟨hy, -⟩ := List.nodup_cons.1 hnd
    refine ⟨⟨hxn, hnx⟩, h.2.congr hn fun z hz => hp z (List.mem_cons_of_mem _ hz) ?_⟩
    rintro rfl
    exact hy hz

/-- **The node behind the first one goes out.** -/
theorem pop (h : Path next prev a (x :: l) b) (hnd : (l ++ [b]).Nodup) (han : next' a = next x)
    (hna : prev' (next x) = a) (hn : ∀ y ∈ l, next' y = next y)
    (hp : ∀ y ∈ l ++ [b], y ≠ next x → prev' y = prev y) : Path next' prev' a l b := by
  obtain ⟨-, h⟩ := h
  rw [h.first.1] at han hna hp
  cases l with
  | nil => exact ⟨han, hna⟩
  | cons y l =>
    obtain ⟨hy, -⟩ := List.nodup_cons.1 hnd
    refine ⟨⟨han, hna⟩, h.2.congr hn fun z hz => hp z (List.mem_cons_of_mem _ hz) ?_⟩
    rintro rfl
    exact hy hz

end Path

/-- A circle depends on the links of its nodes. -/
theorem congr (hn : ∀ y ∈ l, next' y = next y) (hp : ∀ y ∈ l, prev' y = prev y) (h : Circular next prev l) :
    Circular next' prev' l := by
  cases l with
  | nil => trivial
  | cons x l =>
    refine Path.congr hn (fun y hy => hp y ?_) h
    rcases List.mem_append.1 hy with hy | hy
    · exact List.mem_cons_of_mem _ hy
    · rw [List.mem_singleton.1 hy]
      exact List.mem_cons_self

/-- Two nodes in a row. -/
theorem link (h : Circular next prev (l ++ a :: b :: r)) : next a = b ∧ prev b = a := by
  cases l with
  | nil => exact h.1
  | cons x l => exact (Path.append.1 h).2.1

/-- Behind the first node. -/
theorem first (h : Circular next prev (a :: l)) : next a = l.headD a ∧ prev (l.headD a) = a := Path.first h

/-- Behind the last node is the first one. -/
theorem last (h : Circular next prev (l ++ [a])) : next a = (l ++ [a]).head (by simp) := by
  cases l with
  | nil => exact h.1
  | cons x l => exact (Path.append.1 h).2.1

/-- Before the first node is the last one. -/
theorem prev_first (h : Circular next prev (a :: (l ++ [b]))) : prev a = b := (Path.append.1 h).2.2

/-- Behind a node is the next one, or the first one again. -/
theorem next_headD (h : Circular next prev (a :: (l ++ x :: r))) : next x = r.headD a := (Path.append.1 h).2.first.1

theorem next_mem (h : Circular next prev l) (hx : x ∈ l) : next x ∈ l := by
  obtain ⟨l, r, rfl⟩ := List.append_of_mem hx
  cases r with
  | nil =>
    rw [h.last]
    exact List.head_mem _
  | cons y r =>
    rw [h.link.1]
    simp

theorem prev_mem (h : Circular next prev l) (hx : x ∈ l) : prev x ∈ l := by
  obtain ⟨l, r, rfl⟩ := List.append_of_mem hx
  rcases List.eq_nil_or_concat l with rfl | ⟨l, y, rfl⟩
  · -- before the first node is the last one
    rcases List.eq_nil_or_concat r with rfl | ⟨r, z, rfl⟩
    · rw [h.2]
      exact List.mem_cons_self
    · rw [List.concat_eq_append] at h
      rw [(Path.append.1 h).2.2]
      simp
  · rw [List.concat_eq_append, List.append_assoc] at h
    rw [h.link.2]
    simp

/-- **A node goes in behind another one.** -/
theorem insert (h : Circular next prev (l ++ a :: r)) (hnd : (l ++ a :: r).Nodup) (hax : next' a = x)
    (hxa : prev' x = a) (hxn : next' x = next a) (hnx : prev' (next a) = x)
    (hn : ∀ y ∈ l ++ a :: r, y ≠ a → next' y = next y)
    (hp : ∀ y ∈ l ++ a :: r, y ≠ next a → prev' y = prev y) : Circular next' prev' (l ++ a :: x :: r) := by
  obtain ⟨hl, har, hdisj⟩ := List.nodup_append'.1 hnd
  obtain ⟨ha, hr⟩ := List.nodup_cons.1 har
  have hnr : ∀ y ∈ r, next' y = next y := by
    intro y hy
    refine hn y (by simp [hy]) ?_
    rintro rfl
    exact ha hy
  cases l with
  | nil =>
    have hra : (r ++ [a]).Nodup := by
      rw [List.nodup_append']
      exact ⟨hr, List.nodup_singleton a, by simpa using ha⟩
    exact Path.push h hra hax hxa hxn hnx hnr fun y hy => hp y (by simpa [or_comm] using hy)
  | cons z l =>
    obtain ⟨hz, hl⟩ := List.nodup_cons.1 hl
    obtain ⟨h₁, h₂⟩ := Path.append.1 h
    have hrz : (r ++ [z]).Nodup := by
      rw [List.nodup_append']
      refine ⟨hr, List.nodup_singleton z, ?_⟩
      simp only [List.disjoint_singleton]
      exact fun hzr => hdisj List.mem_cons_self (List.mem_cons_of_mem _ hzr)
    refine Path.append.2 ⟨h₁.congr (fun y hy => hn y (by simp at hy ⊢; tauto) ?_) fun y hy => hp y ?_ ?_, ?_⟩
    · rintro rfl
      exact hdisj hy List.mem_cons_self
    · simp at hy ⊢
      tauto
    · -- what is behind `a` is not before it
      intro hya
      have hmem : y ∈ r ++ [z] := by
        rw [hya, h₂.first.1]
        exact Path.headD_mem r z
      simp only [List.mem_append, List.mem_singleton] at hy hmem
      rcases hmem with hyr | rfl
      · rcases hy with hy | rfl
        · exact hdisj (List.mem_cons_of_mem _ hy) (List.mem_cons_of_mem _ hyr)
        · exact ha hyr
      · rcases hy with hy | rfl
        · exact hz hy
        · exact hdisj List.mem_cons_self List.mem_cons_self
    · exact Path.push h₂ hrz hax hxa hxn hnx hnr fun y hy => hp y (by simp at hy ⊢; tauto)

/-- **The node behind another one goes out.** -/
theorem remove (h : Circular next prev (l ++ a :: x :: r)) (hnd : (l ++ a :: x :: r).Nodup) (han : next' a = next x)
    (hna : prev' (next x) = a) (hn : ∀ y ∈ l ++ a :: r, y ≠ a → next' y = next y)
    (hp : ∀ y ∈ l ++ a :: r, y ≠ next x → prev' y = prev y) : Circular next' prev' (l ++ a :: r) := by
  obtain ⟨hl, haxr, hdisj⟩ := List.nodup_append'.1 hnd
  obtain ⟨hax, hxr⟩ := List.nodup_cons.1 haxr
  obtain ⟨hx, hr⟩ := List.nodup_cons.1 hxr
  have ha : a ∉ r := fun har => hax (List.mem_cons_of_mem _ har)
  have hnr : ∀ y ∈ r, next' y = next y := by
    intro y hy
    refine hn y (by simp [hy]) ?_
    rintro rfl
    exact ha hy
  cases l with
  | nil =>
    have hra : (r ++ [a]).Nodup := by
      rw [List.nodup_append']
      exact ⟨hr, List.nodup_singleton a, by simpa using ha⟩
    exact Path.pop h hra han hna hnr fun y hy => hp y (by simpa [or_comm] using hy)
  | cons z l =>
    obtain ⟨hz, hl⟩ := List.nodup_cons.1 hl
    obtain ⟨h₁, h₂⟩ := Path.append.1 h
    have hrz : (r ++ [z]).Nodup := by
      rw [List.nodup_append']
      refine ⟨hr, List.nodup_singleton z, ?_⟩
      simp only [List.disjoint_singleton]
      exact fun hzr => hdisj List.mem_cons_self (List.mem_cons_of_mem _ (List.mem_cons_of_mem _ hzr))
    refine Path.append.2 ⟨h₁.congr (fun y hy => hn y (by simp at hy ⊢; tauto) ?_) fun y hy => hp y ?_ ?_, ?_⟩
    · rintro rfl
      exact hdisj hy List.mem_cons_self
    · simp at hy ⊢
      tauto
    · intro hyx
      have hmem : y ∈ r ++ [z] := by
        rw [hyx, h₂.2.first.1]
        exact Path.headD_mem r z
      simp only [List.mem_append, List.mem_singleton] at hy hmem
      rcases hmem with hyr | rfl
      · rcases hy with hy | rfl
        · exact hdisj (List.mem_cons_of_mem _ hy) (List.mem_cons_of_mem _ (List.mem_cons_of_mem _ hyr))
        · exact ha hyr
      · rcases hy with hy | rfl
        · exact hz hy
        · exact hdisj List.mem_cons_self List.mem_cons_self
    · exact Path.pop h₂ hrz han hna hnr fun y hy => hp y (by simp at hy ⊢; tauto)

end Circular
