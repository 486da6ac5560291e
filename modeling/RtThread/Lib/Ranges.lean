import Mathlib.Data.List.Pairwise
import Mathlib.Order.Lattice

/-!
# Ranges in a ring

Ranges `[lo i, hi i)` that are laid out one behind the other, from a place on to the end of a buffer and then from
its beginning on to that place.

* `Ascending`: each range ends where the later ones begin, or before.
* `Ring`: an ascending list, and behind it another that lies before all of it.
* `Ring.sublist`, `Ring.apart`: ranges can be taken out in any order, and no two overlap.
* `Ascending.push_top`, `Ascending.push_bottom`, `Ring.push_gap`: where a range can be added.
-/

namespace Ranges

variable {ι α : Type*} [LinearOrder α] {lo hi lo' hi' : ι → α} {l l' : List ι} {i j n t : ι}

/-- Each range ends where the later ones begin, or before. -/
def Ascending (lo hi : ι → α) (l : List ι) : Prop := l.Pairwise fun i j => hi i ≤ lo j

instance (lo hi : ι → α) (l : List ι) : Decidable (Ascending lo hi l) := by
  unfold Ascending
  infer_instance

/-- An ascending list, and behind it another that lies before all of it. -/
def Ring (lo hi : ι → α) (l : List ι) : Prop :=
  ∃ l₁ l₂, l = l₁ ++ l₂ ∧ Ascending lo hi l₁ ∧ Ascending lo hi l₂ ∧ ∀ i ∈ l₁, ∀ j ∈ l₂, hi j ≤ lo i

theorem Ascending.sublist (h : Ascending lo hi l) (hl : l'.Sublist l) : Ascending lo hi l' := List.Pairwise.sublist hl h

theorem Ascending.congr (h : Ascending lo hi l) (hlo : ∀ i ∈ l, lo' i = lo i) (hhi : ∀ i ∈ l, hi' i = hi i) :
    Ascending lo' hi' l := by
  refine List.Pairwise.imp_of_mem (fun {i j} hmi hmj hle => ?_) h
  rw [hlo j hmj, hhi i hmi]
  exact hle

theorem Ascending.ring (h : Ascending lo hi l) : Ring lo hi l :=
  ⟨l, [], (List.append_nil l).symm, h, .nil, nofun⟩

/-- Behind the last range is nothing. -/
theorem Ascending.le_last (h : Ascending lo hi (l ++ [t])) (ht : lo t ≤ hi t) (hmem : i ∈ l ++ [t]) : hi i ≤ hi t := by
  rcases List.mem_append.1 hmem with hmem | hmem
  · exact le_trans ((List.pairwise_append.1 h).2.2 i hmem t (List.mem_singleton_self t)) ht
  · rw [List.mem_singleton.1 hmem]

/-- Before the first range is nothing. -/
theorem Ascending.head_le (h : Ascending lo hi (t :: l)) (ht : lo t ≤ hi t) (hmem : i ∈ t :: l) : lo t ≤ lo i := by
  rcases List.mem_cons.1 hmem with rfl | hmem
  · exact le_rfl
  · exact le_trans ht ((List.pairwise_cons.1 h).1 i hmem)

/-- A range behind all the others. -/
theorem Ascending.append (h : Ascending lo hi l) (htop : ∀ i ∈ l, hi i ≤ lo n) : Ascending lo hi (l ++ [n]) := by
  refine List.pairwise_append.2 ⟨h, List.pairwise_singleton _ n, fun i hmem j hj => ?_⟩
  rw [List.mem_singleton.1 hj]
  exact htop i hmem

theorem Ring.sublist (h : Ring lo hi l) (hl : l'.Sublist l) : Ring lo hi l' := by
  obtain ⟨l₁, l₂, rfl, h₁, h₂, hbelow⟩ := h
  obtain ⟨k₁, k₂, rfl, hk₁, hk₂⟩ := List.sublist_append_iff.1 hl
  exact ⟨k₁, k₂, rfl, h₁.sublist hk₁, h₂.sublist hk₂, fun i hmi j hmj => hbelow i (hk₁.subset hmi) j (hk₂.subset hmj)⟩

theorem Ring.congr (h : Ring lo hi l) (hlo : ∀ i ∈ l, lo' i = lo i) (hhi : ∀ i ∈ l, hi' i = hi i) :
    Ring lo' hi' l := by
  obtain ⟨l₁, l₂, rfl, h₁, h₂, hbelow⟩ := h
  have hleft : ∀ {i}, i ∈ l₁ → i ∈ l₁ ++ l₂ := fun hmem => List.mem_append_left _ hmem
  have hright : ∀ {i}, i ∈ l₂ → i ∈ l₁ ++ l₂ := fun hmem => List.mem_append_right _ hmem
  refine ⟨l₁, l₂, rfl, h₁.congr (fun i hmem => hlo i (hleft hmem)) fun i hmem => hhi i (hleft hmem),
    h₂.congr (fun i hmem => hlo i (hright hmem)) fun i hmem => hhi i (hright hmem), fun i hmi j hmj => ?_⟩
  rw [hlo i (hleft hmi), hhi j (hright hmj)]
  exact hbelow i hmi j hmj

theorem Ascending.apart (h : Ascending lo hi l) (hmi : i ∈ l) (hmj : j ∈ l) (hne : i ≠ j) :
    hi i ≤ lo j ∨ hi j ≤ lo i := by
  have hboth : l.Pairwise fun i j => hi i ≤ lo j ∨ hi j ≤ lo i := h.imp Or.inl
  have : Std.Symm fun i j => hi i ≤ lo j ∨ hi j ≤ lo i := ⟨fun _ _ => Or.symm⟩
  exact hboth.forall hmi hmj hne

/-- **No two ranges overlap.** -/
theorem Ring.apart (h : Ring lo hi l) (hmi : i ∈ l) (hmj : j ∈ l) (hne : i ≠ j) : hi i ≤ lo j ∨ hi j ≤ lo i := by
  obtain ⟨l₁, l₂, rfl, h₁, h₂, hbelow⟩ := h
  rcases List.mem_append.1 hmi with hi₁ | hi₂
  · rcases List.mem_append.1 hmj with hj₁ | hj₂
    · exact h₁.apart hi₁ hj₁ hne
    · exact .inr (hbelow i hi₁ j hj₂)
  · rcases List.mem_append.1 hmj with hj₁ | hj₂
    · exact .inl (hbelow j hj₁ i hi₂)
    · exact h₂.apart hi₂ hj₂ hne

/-- A range behind all the others, which have not come round. -/
theorem Ascending.push_top (h : Ascending lo hi l) (htop : ∀ i ∈ l, hi i ≤ lo n) : Ring lo hi (l ++ [n]) :=
  (h.append htop).ring

/-- A range before all the others: the list comes round. -/
theorem Ascending.push_bottom (h : Ascending lo hi l) (hbottom : ∀ i ∈ l, hi n ≤ lo i) : Ring lo hi (l ++ [n]) := by
  refine ⟨l, [n], rfl, h, List.pairwise_singleton _ n, fun i hmem j hj => ?_⟩
  rw [List.mem_singleton.1 hj]
  exact hbottom i hmem

/-- A range in the gap between the last one and the first of a list that has come round. -/
theorem Ring.push_gap {k : List ι} {f : ι} (h : Ring lo hi l) (hrange : ∀ i ∈ l, lo i ≤ hi i) (hfirst : l = f :: l')
    (hlast : l = k ++ [t]) (hround : lo t < lo f) (hbehind : hi t ≤ lo n) (hbefore : hi n ≤ lo f) :
    Ring lo hi (l ++ [n]) := by
  obtain ⟨l₁, l₂, hl, h₁, h₂, hbelow⟩ := h
  have hmf : f ∈ l := hfirst ▸ List.mem_cons_self
  have hmt : t ∈ l := hlast ▸ List.mem_append_right _ (List.mem_singleton_self t)
  -- neither half is all of the list, which does not ascend
  have hdescends : ¬Ascending lo hi l := by
    intro hasc
    rw [hfirst] at hasc hmt
    exact absurd (hasc.head_le (hrange f hmf) hmt) (not_le.2 hround)
  cases l₁ with
  | nil => exact absurd (hl ▸ h₂) hdescends
  | cons f' l₁ =>
    obtain rfl : f' = f := by
      rw [hl] at hfirst
      exact (List.cons.inj hfirst).1
    rcases List.eq_nil_or_concat l₂ with rfl | ⟨k₂, t', rfl⟩
    · rw [List.append_nil] at hl
      exact absurd (hl ▸ h₁) hdescends
    · rw [List.concat_eq_append] at h₂ hbelow hl
      obtain rfl : t' = t := by
        rw [hlast, ← List.append_assoc] at hl
        exact (List.cons.inj (List.append_inj_right' hl rfl)).1.symm
      have hrt : lo t' ≤ hi t' := hrange t' hmt
      refine ⟨f' :: l₁, k₂ ++ [t'] ++ [n], ?_, h₁, h₂.append fun i hmem => ?_, fun i hmi j hmj => ?_⟩
      · rw [hl, List.append_assoc]
      · exact le_trans (h₂.le_last hrt hmem) hbehind
      · rcases List.mem_append.1 hmj with hmj | hmj
        · exact hbelow i hmi j hmj
        · rw [List.mem_singleton.1 hmj]
          exact le_trans hbefore (h₁.head_le (hrange f' hmf) hmi)

end Ranges
