import RtThread.Lib.Queue
import Mathlib.Data.List.Chain
import Mathlib.Data.List.TakeWhile

/-!
# Skip lists

A skip list has several rows of the same elements, the first with the fewest of them, the last with all. A search goes
through a row as far as `go` says, and on from there in the next row; a place is an element, or `none` in front of the
first one. An element is put into the last rows, behind the places where the search left them.

* `walk_cut`, `next_cut`: the search cuts every row in two, and the parts of a row are among those of the next.
* `insert_cuts`, `Nested.insert`: **insertion keeps the rows nested**, also when they are not sorted.
* `insert_last`: in a last row that is sorted, the element is put where a plain search puts it (`Queue.insertBefore`).
-/

namespace SkipList

variable {α : Type*}

/-- Every row is part of the next, and no element is twice in a row. -/
structure Nested (rows : List (List α)) : Prop where
  chain : rows.IsChain List.Sublist
  nodup : ∀ row ∈ rows, row.Nodup

/-- Where a walk ends that has these elements before it. -/
def walk (go : α → Bool) (p : Option α) : List α → Option α
  | [] => p
  | y :: l => if go y then walk go (some y) l else p

variable [DecidableEq α]

/-- The elements behind a place, which must be in the row. -/
def behind (p : Option α) (row : List α) : Option (List α) :=
  p.elim (some row) fun x => if x ∈ row then some (row.dropWhile (· ≠ x)).tail else none

/-- The places where the search leaves the rows. -/
def search (go : α → Bool) (p : Option α) : List (List α) → Option (List (Option α))
  | [] => some []
  | row :: rows => (behind p row).bind fun l => (search go (walk go p l) rows).map (walk go p l :: ·)

/-- Put `x` behind a place. -/
def insertAfter (x : α) (p : Option α) (row : List α) : List α :=
  p.elim (x :: row) fun y => row.takeWhile (· ≠ y) ++ y :: x :: (row.dropWhile (· ≠ y)).tail

/-- Put `x` into the last `height` rows. -/
def insertRows (x : α) (height : ℕ) : List (Option α) → List (List α) → List (List α)
  | p :: heads, row :: rows =>
    (if rows.length < height then insertAfter x p row else row) :: insertRows x height heads rows
  | _, rows => rows

variable {go : α → Bool} {a b c d row row' : List α} {rows : List (List α)} {x y : α} {n : ℕ}

/-! ## Cuts -/

omit [DecidableEq α] in
theorem walk_eq (p : Option α) (l : List α) : walk go p l = (l.takeWhile go).getLast?.or p := by
  induction l generalizing p with
  | nil => rfl
  | cons y l ih =>
    unfold walk
    by_cases hy : go y = true
    · rw [if_pos hy, ih, List.takeWhile_cons_of_pos hy, List.getLast?_cons]
      cases (l.takeWhile go).getLast? <;> rfl
    · rw [if_neg hy, List.takeWhile_cons_of_neg hy]
      rfl

omit [DecidableEq α] in
/-- The walk from the end of `a`. -/
theorem walk_cut : walk go a.getLast? b = (a ++ b.takeWhile go).getLast? := by
  rw [walk_eq, List.getLast?_append]

theorem not_mem_left (h : (a ++ y :: b).Nodup) : ∀ z ∈ a, decide (z ≠ y) = true := by
  intro z hz
  rw [decide_eq_true_eq]
  rintro rfl
  exact (List.nodup_append.1 h).2.2 z hz z List.mem_cons_self rfl

/-- The place at the end of the first part. -/
theorem behind_cut (h : (a ++ b).Nodup) : behind a.getLast? (a ++ b) = some b := by
  rcases List.eq_nil_or_concat a with rfl | ⟨a, y, rfl⟩
  · rfl
  · rw [List.concat_eq_append, List.getLast?_concat]
    rw [List.concat_eq_append, List.append_assoc] at h
    unfold behind
    rw [Option.elim_some, if_pos (by simp), List.append_assoc, List.dropWhile_append_of_pos (not_mem_left h)]
    simp

theorem insertAfter_cut (h : (a ++ b).Nodup) : insertAfter x a.getLast? (a ++ b) = a ++ x :: b := by
  rcases List.eq_nil_or_concat a with rfl | ⟨a, y, rfl⟩
  · rfl
  · rw [List.concat_eq_append, List.getLast?_concat]
    rw [List.concat_eq_append, List.append_assoc] at h
    unfold insertAfter
    rw [Option.elim_some, List.append_assoc, List.dropWhile_append_of_pos (not_mem_left h),
      List.takeWhile_append_of_pos (not_mem_left h)]
    simp

omit [DecidableEq α] in
/-- What begins with an element where the walk stops is behind the walk. -/
theorem sublist_dropWhile (h : b.Sublist d) (hstop : ∀ z ∈ b.head?, go z = false) : b.Sublist (d.dropWhile go) := by
  induction d with
  | nil => exact h
  | cons y d ih =>
    by_cases hy : go y = true
    · rw [List.dropWhile_cons_of_pos hy]
      cases b with
      | nil => exact List.nil_sublist _
      | cons z b =>
        have hz : go z = false := hstop z rfl
        refine ih (List.Sublist.of_cons_of_ne ?_ h)
        rintro rfl
        rw [hy] at hz
        cases hz
    · rw [List.dropWhile_cons_of_neg hy]
      exact h

omit [DecidableEq α] in
/-- **The next row** is cut at the same place, and then where the walk in it ends. -/
theorem next_cut (h : (a ++ b).Sublist row) (hstop : ∀ z ∈ b.head?, go z = false) :
    ∃ c d, row = c ++ d ∧ c.getLast? = a.getLast? ∧ a.Sublist c ∧ b.Sublist d ∧ b.Sublist (d.dropWhile go) := by
  have hcut : ∃ c d, row = c ++ d ∧ c.getLast? = a.getLast? ∧ a.Sublist c ∧ b.Sublist d := by
    rcases List.eq_nil_or_concat a with rfl | ⟨a, y, rfl⟩
    · exact ⟨[], row, rfl, rfl, List.nil_sublist _, h⟩
    · rw [List.concat_eq_append, List.append_assoc, List.append_sublist_iff] at h
      obtain ⟨r₁, r₂, rfl, ha, hb⟩ := h
      obtain ⟨s₁, s₂, rfl, hy, hrest⟩ := List.cons_sublist_iff.1 hb
      obtain ⟨t₁, t₂, rfl⟩ := List.append_of_mem hy
      refine ⟨r₁ ++ (t₁ ++ [y]), t₂ ++ s₂, by simp, by simp, ?_, hrest.trans (List.sublist_append_right _ _)⟩
      rw [List.concat_eq_append]
      exact ha.append (List.sublist_append_right _ _)
  obtain ⟨c, d, rfl, hlast, ha, hb⟩ := hcut
  exact ⟨c, d, rfl, hlast, ha, hb, sublist_dropWhile hb hstop⟩

/-! ## Insertion -/

/-- The row cut in two, with `x` in between if it goes that far up. -/
def cutRow (x : α) (up : Prop) [Decidable up] (a b : List α) : List α := if up then a ++ x :: b else a ++ b

omit [DecidableEq α] in
theorem nodup_cutRow {up : Prop} [Decidable up] (h : (a ++ b).Nodup) (hx : x ∉ a ++ b) : (cutRow x up a b).Nodup := by
  unfold cutRow
  split
  · rw [List.perm_middle.nodup_iff]
    exact List.nodup_cons.2 ⟨hx, h⟩
  · exact h

omit [DecidableEq α] in
theorem cutRow_sublist {up up' : Prop} [Decidable up] [Decidable up'] (hup : up → up') (ha : a.Sublist c)
    (hb : b.Sublist d) : (cutRow x up a b).Sublist (cutRow x up' c d) := by
  unfold cutRow
  by_cases h : up
  · rw [if_pos h, if_pos (hup h)]
    exact ha.append (hb.cons_cons x)
  · rw [if_neg h]
    split
    · exact ha.append (hb.cons x)
    · exact ha.append hb

theorem insertRows_nil (heads : List (Option α)) : insertRows x n heads [] = [] := by
  cases heads <;> rfl

/-- How the last row is cut: all that the walk has passed is before `x`, and what stops it is behind. -/
structure LastCut (go : α → Bool) (x : α) (rows rows' : List (List α)) : Prop where
  cut : ∀ row ∈ rows.getLast?, ∃ c d, row = c ++ d ∧ rows'.getLast? = some (c ++ x :: d) ∧
    (∀ z ∈ c.getLast?, go z = true) ∧ ∀ z ∈ d.head?, go z = false

/-- **Insertion, from a cut of the row before on**: the search goes through, the new rows are nested again. -/
theorem insert_cuts (x : α) (n : ℕ) (h : ((a ++ b) :: rows).IsChain List.Sublist)
    (hnodup : ∀ row ∈ rows, row.Nodup ∧ x ∉ row) (hgo : ∀ z ∈ a.getLast?, go z = true)
    (hstop : ∀ z ∈ b.head?, go z = false) :
    ∃ heads, search go a.getLast? rows = some heads ∧
      (cutRow x (rows.length < n) a b :: insertRows x n heads rows).IsChain List.Sublist ∧
      (∀ row ∈ insertRows x n heads rows, row.Nodup) ∧
      (insertRows x n heads rows).length = rows.length ∧
      (0 < n → LastCut go x rows (insertRows x n heads rows)) := by
  induction rows generalizing a b with
  | nil =>
    refine ⟨[], rfl, List.IsChain.singleton _, by simp [insertRows], rfl, fun _ => ⟨by simp⟩⟩
  | cons row rows ih =>
    rw [List.isChain_cons_cons] at h
    obtain ⟨c, d, rfl, hlast, ha, hb, hbd⟩ := next_cut h.1 hstop
    obtain ⟨hnd, hx⟩ := hnodup _ List.mem_cons_self
    -- the walk in this row
    have hrow : c ++ d = (c ++ d.takeWhile go) ++ d.dropWhile go := by
      rw [List.append_assoc, List.takeWhile_append_dropWhile]
    have hgo' : ∀ z ∈ (c ++ d.takeWhile go).getLast?, go z = true := by
      intro z hz
      rw [List.getLast?_append] at hz
      cases hw : (d.takeWhile go).getLast? with
      | none =>
        rw [hw, Option.none_or, hlast] at hz
        exact hgo z hz
      | some w =>
        rw [hw, Option.some_or] at hz
        obtain rfl := Option.some.inj hz
        exact List.mem_takeWhile_imp (List.mem_of_getLast? hw)
    have hstop' : ∀ z ∈ (d.dropWhile go).head?, go z = false := by
      intro z hz
      have := List.head?_dropWhile_not go d
      rw [hz] at this
      simpa using this
    obtain ⟨heads, hs, hchain, hnew, hlen, hcut⟩ := ih (a := c ++ d.takeWhile go) (b := d.dropWhile go)
      (hrow ▸ h.2) (fun r hr => hnodup r (List.mem_cons_of_mem _ hr)) hgo' hstop'
    have hfirst : insertRows x n (walk go a.getLast? d :: heads) ((c ++ d) :: rows) =
        cutRow x (rows.length < n) (c ++ d.takeWhile go) (d.dropWhile go) :: insertRows x n heads rows := by
      rw [insertRows, ← hlast, walk_cut, cutRow, ← hrow]
      congr 1
      split
      · have := insertAfter_cut (x := x) (a := c ++ d.takeWhile go) (b := d.dropWhile go) (hrow ▸ hnd)
        rw [← hrow] at this
        exact this
      · rfl
    refine ⟨walk go a.getLast? d :: heads, ?_, ?_, ?_, ?_, ?_⟩
    · rw [search, ← hlast, behind_cut hnd, Option.bind_some, walk_cut, hs]
      rfl
    · rw [hfirst, List.isChain_cons_cons]
      refine ⟨cutRow_sublist (fun hup => ?_) (ha.trans (List.sublist_append_left _ _)) hbd, hchain⟩
      rw [List.length_cons] at hup
      omega
    · rw [hfirst]
      intro r hr
      rcases List.mem_cons.1 hr with rfl | hr
      · exact nodup_cutRow (hrow ▸ hnd) (hrow ▸ hx)
      · exact hnew r hr
    · rw [hfirst, List.length_cons, List.length_cons, hlen]
    · intro hn
      rw [hfirst]
      cases rows with
      | nil =>
        refine ⟨fun r hr => ⟨c ++ d.takeWhile go, d.dropWhile go, ?_, ?_, hgo', hstop'⟩⟩
        · rw [← hrow]
          exact (Option.some.inj hr).symm
        · rw [cutRow, List.length_nil, if_pos hn, insertRows_nil]
          rfl
      | cons r rows =>
        obtain ⟨hcut⟩ := hcut hn
        refine ⟨fun r' hr' => ?_⟩
        obtain ⟨c', d', h1, h2, h3, h4⟩ := hcut r' (by rwa [List.getLast?_cons_cons] at hr')
        refine ⟨c', d', h1, ?_, h3, h4⟩
        rw [List.getLast?_cons, h2]
        rfl

/-- **Insertion finds all places, and keeps the rows nested.** -/
theorem Nested.insert (h : Nested rows) (go : α → Bool) (hx : ∀ row ∈ rows, x ∉ row) (n : ℕ) :
    ∃ heads, search go none rows = some heads ∧ Nested (insertRows x n heads rows) ∧
      (insertRows x n heads rows).length = rows.length ∧ (0 < n → LastCut go x rows (insertRows x n heads rows)) := by
  have hchain : (([] ++ []) :: rows).IsChain List.Sublist := by
    cases rows with
    | nil => exact List.IsChain.singleton _
    | cons row rows => exact List.isChain_cons_cons.2 ⟨List.nil_sublist _, h.chain⟩
  have hstop : ∀ z ∈ ([] : List α).head?, go z = false := by simp
  obtain ⟨heads, hs, hnew, hnodup, hlen, hcut⟩ :=
    insert_cuts x n hchain (fun row hr => ⟨h.nodup row hr, hx row hr⟩) (by simp) hstop
  exact ⟨heads, hs, ⟨hnew.tail, hnodup⟩, hlen, hcut⟩

omit [DecidableEq α] in
/-- **In a sorted last row**, `x` is behind all that come before it, as if this were the only row. -/
theorem insert_last {rows' : List (List α)} (hcut : LastCut go x rows rows') (hrow : row ∈ rows.getLast?)
    (hsorted : row.Pairwise fun y z => go z = true → go y = true) :
    rows'.getLast? = some (Queue.insertBefore (fun y => !go y) x row) := by
  obtain ⟨hcut⟩ := hcut
  obtain ⟨c, d, rfl, hlast, hgo, hstop⟩ := hcut row hrow
  have hall : ∀ y ∈ c, go y = true := by
    intro y hy
    rcases List.eq_nil_or_concat c with rfl | ⟨c, z, rfl⟩
    · cases hy
    · rw [List.concat_eq_append] at hy hgo hsorted
      have hz : go z = true := hgo z (by simp)
      rcases List.mem_append.1 hy with hy | hy
      · rw [List.append_assoc, List.pairwise_append] at hsorted
        exact hsorted.2.2 y hy z (by simp) hz
      · rw [List.mem_singleton.1 hy]
        exact hz
  have hinsert : ∀ c : List α, (∀ y ∈ c, go y = true) →
      Queue.insertBefore (fun y => !go y) x (c ++ d) = c ++ x :: d := by
    intro c hc
    induction c with
    | nil =>
      cases d with
      | nil => rfl
      | cons z d =>
        have hz : go z = false := hstop z rfl
        rw [List.nil_append, Queue.insertBefore, if_pos (by rw [hz]; rfl), List.nil_append]
    | cons y c ih =>
      have hy : go y = true := hc y List.mem_cons_self
      rw [List.cons_append, Queue.insertBefore, if_neg (by rw [hy]; simp),
        ih fun z hz => hc z (List.mem_cons_of_mem _ hz), List.cons_append]
  rw [hlast, hinsert c hall]

omit [DecidableEq α] in
/-- Taking elements out keeps the rows nested. -/
theorem Nested.filter (h : Nested rows) (p : α → Bool) : Nested (rows.map fun row => row.filter p) := by
  refine ⟨?_, ?_⟩
  · rw [List.isChain_map]
    exact h.chain.imp fun _ _ hab => hab.filter p
  · intro row hr
    obtain ⟨r, hr', rfl⟩ := List.mem_map.1 hr
    exact (h.nodup r hr').filter p

omit [DecidableEq α] in
/-- The rows are parts of the last one. -/
theorem sublist_last {last : List α} (h : rows.IsChain List.Sublist) (hrow : row ∈ rows)
    (hlast : rows.getLast? = some last) : row.Sublist last := by
  induction rows generalizing row with
  | nil => cases hrow
  | cons r rows ih =>
    cases rows with
    | nil =>
      obtain rfl := List.mem_singleton.1 hrow
      obtain rfl := Option.some.inj hlast
      exact List.Sublist.refl _
    | cons r' rows =>
      rw [List.isChain_cons_cons] at h
      rw [List.getLast?_cons_cons] at hlast
      rcases List.mem_cons.1 hrow with rfl | hrow
      · exact h.1.trans (ih h.2 List.mem_cons_self hlast)
      · exact ih h.2 hrow hlast

omit [DecidableEq α] in
theorem nested_replicate (n : ℕ) : Nested (List.replicate n ([] : List α)) := by
  refine ⟨?_, ?_⟩
  · exact List.isChain_replicate_of_rel n (List.Sublist.refl _)
  · intro row hr
    rw [List.eq_of_mem_replicate hr]
    exact List.nodup_nil

end SkipList
