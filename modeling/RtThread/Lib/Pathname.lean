import Mathlib.Data.List.Basic

/-!
# Path names

A canonical path is `"/"`, or a slash before each of its components; a component is not empty, and neither `"."` nor
`".."`. One path is under another if it continues its components.

* `render_injective`: a canonical path has one list of components.
* `under_iff`: **components against characters**: a prefix that ends where a component ends.
-/

namespace Pathname

abbrev Text := List Char

structure Component (c : Text) : Prop where
  nonempty : c ≠ []
  noSlash : '/' ∉ c
  noDot : c ≠ ['.']
  noDotDot : c ≠ ['.', '.']

/-- A slash before each component. -/
def body (cs : List Text) : Text := cs.flatMap ('/' :: ·)

def render (cs : List Text) : Text := if cs = [] then ['/'] else body cs

def Canonical (p : Text) : Prop := ∃ cs, (∀ c ∈ cs, Component c) ∧ p = render cs

theorem Canonical.head {p : Text} (h : Canonical p) : ∃ t, p = '/' :: t := by
  obtain ⟨cs, -, rfl⟩ := h
  unfold render
  split
  · exact ⟨[], rfl⟩
  · rename_i hne
    obtain ⟨c, cs, rfl⟩ := List.exists_cons_of_ne_nil hne
    exact ⟨_, rfl⟩

/-- The components of `p` begin those of `q`. -/
def Under (p q : Text) : Prop :=
  ∃ cs ds, (∀ c ∈ cs, Component c) ∧ (∀ d ∈ ds, Component d) ∧ p = render cs ∧ q = render ds ∧ cs <+: ds

/-- Nothing, or something that begins with a slash. -/
def Slashed (t : Text) : Prop := ∀ c ∈ t.head?, c = '/'

theorem body_slashed (cs : List Text) : Slashed (body cs) := by
  cases cs with
  | nil => nofun
  | cons c cs =>
    intro x hx
    cases hx
    rfl

theorem body_append (cs ds : List Text) : body (cs ++ ds) = body cs ++ body ds := List.flatMap_append

theorem Slashed.append {s t : Text} (hs : Slashed s) (ht : Slashed t) : Slashed (s ++ t) := by
  cases s with
  | nil => exact ht
  | cons c s => exact hs

/-- The first component ends at the first slash. -/
theorem component_unique {c d s t : Text} (hc : '/' ∉ c) (hd : '/' ∉ d) (hs : Slashed s) (ht : Slashed t)
    (h : c ++ s = d ++ t) : c = d ∧ s = t := by
  induction c generalizing d with
  | nil =>
    cases d with
    | nil => exact ⟨rfl, h⟩
    | cons y d =>
      rw [List.nil_append] at h
      have hy : y = '/' := hs y (by rw [h]; rfl)
      exact absurd List.mem_cons_self (hy ▸ hd)
  | cons x c ih =>
    cases d with
    | nil =>
      rw [List.nil_append] at h
      have hx : x = '/' := ht x (by rw [← h]; rfl)
      exact absurd List.mem_cons_self (hx ▸ hc)
    | cons y d =>
      rw [List.cons_append, List.cons_append] at h
      obtain ⟨rfl, htail⟩ := List.cons.inj h
      obtain ⟨rfl, rfl⟩ := ih (fun hx => hc (List.mem_cons_of_mem _ hx)) (fun hx => hd (List.mem_cons_of_mem _ hx)) htail
      exact ⟨rfl, rfl⟩

theorem body_prefix {cs ds : List Text} {rest : Text} (hcs : ∀ c ∈ cs, '/' ∉ c) (hds : ∀ d ∈ ds, '/' ∉ d)
    (hrest : Slashed rest) (h : body cs ++ rest = body ds) : cs <+: ds := by
  induction cs generalizing ds with
  | nil => exact List.nil_prefix
  | cons c cs ih =>
    cases ds with
    | nil => cases h
    | cons d ds =>
      obtain ⟨hc, hcs⟩ := List.forall_mem_cons.1 hcs
      have hd := hds d List.mem_cons_self
      have htail : c ++ (body cs ++ rest) = d ++ body ds := by
        have h' : '/' :: (c ++ (body cs ++ rest)) = '/' :: (d ++ body ds) := by
          simpa only [body, List.flatMap_cons, List.cons_append, List.append_assoc] using h
        exact (List.cons.inj h').2
      obtain ⟨rfl, hbody⟩ := component_unique hc hd ((body_slashed cs).append hrest) (body_slashed ds) htail
      exact List.cons_prefix_cons.2 ⟨rfl, ih hcs (fun d hd => hds d (List.mem_cons_of_mem _ hd)) hbody⟩

theorem body_length {cs : List Text} (hcs : ∀ c ∈ cs, Component c) (hne : cs ≠ []) : 1 < (body cs).length := by
  cases cs with
  | nil => exact absurd rfl hne
  | cons c cs =>
    have hc := List.length_pos_iff.2 (hcs c List.mem_cons_self).nonempty
    simp only [body, List.flatMap_cons, List.length_append, List.length_cons]
    omega

/-- **Components against characters**: a prefix, and, but for the root, where it ends a component ends. -/
theorem under_iff {cs ds : List Text} (hcs : ∀ c ∈ cs, Component c) (hds : ∀ d ∈ ds, Component d) :
    (render cs <+: render ds ∧
      ((render cs).length ≤ 1 ∨ Slashed ((render ds).drop (render cs).length))) ↔ cs <+: ds := by
  by_cases hc : cs = []
  · subst hc
    have hslash : ['/'] <+: render ds := by
      by_cases hd : ds = []
      · have hroot : render ds = ['/'] := if_pos hd
        exact hroot ▸ List.prefix_rfl
      · obtain ⟨d, ds, rfl⟩ := List.exists_cons_of_ne_nil hd
        rw [render, if_neg hd]
        exact ⟨_, rfl⟩
    exact ⟨fun _ => List.nil_prefix, fun _ => ⟨hslash, .inl (Nat.le_refl 1)⟩⟩
  · have hlong := body_length hcs hc
    rw [render, if_neg hc]
    constructor
    · rintro ⟨⟨rest, hrest⟩, hend⟩
      have hend := hend.resolve_left (by omega)
      rw [← hrest, List.drop_left] at hend
      by_cases hd : ds = []
      · subst hd
        have hlen := congrArg List.length hrest
        rw [List.length_append, render, if_pos rfl, List.length_singleton] at hlen
        omega
      · rw [render, if_neg hd] at hrest
        exact body_prefix (fun c hc => (hcs c hc).noSlash) (fun d hd => (hds d hd).noSlash) hend hrest
    · rintro ⟨es, rfl⟩
      have hd : cs ++ es ≠ [] := fun h => hc (List.append_eq_nil_iff.1 h).1
      rw [render, if_neg hd, body_append]
      refine ⟨List.prefix_append _ _, .inr ?_⟩
      rw [List.drop_left]
      exact body_slashed es

theorem render_injective {cs ds : List Text} (hcs : ∀ c ∈ cs, Component c) (hds : ∀ d ∈ ds, Component d)
    (h : render cs = render ds) : cs = ds := by
  have hself : ∀ {cs ds : List Text}, (∀ c ∈ cs, Component c) → (∀ d ∈ ds, Component d) → render cs = render ds →
      cs <+: ds := by
    intro cs ds hcs hds h
    refine (under_iff hcs hds).1 ⟨h ▸ List.prefix_rfl, .inr ?_⟩
    rw [h, List.drop_length]
    nofun
  exact List.IsPrefix.eq_of_length_le (hself hcs hds h) (hself hds hcs h.symm).length_le

end Pathname
