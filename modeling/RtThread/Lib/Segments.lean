import Mathlib.Data.List.Infix
import Mathlib.Order.Lattice.Nat

/-!
# Streams with a delimiter

A segment goes up to the first delimiter, and ends with it.

* `exists_segments`: a stream is segments one behind the other, and something in which there is no delimiter.
-/

namespace Segments

variable {α : Type*} {delim seg l : List α}

structure Segment (delim seg : List α) : Prop where
  ends : delim <:+ seg
  first : ∀ p, p <+: seg → delim <:+ p → p = seg

/-- There is no delimiter. -/
def Unended (delim l : List α) : Prop := ∀ p, p <+: l → ¬delim <:+ p

theorem exists_segment (h : ¬Unended delim l) : ∃ seg rest, l = seg ++ rest ∧ Segment delim seg := by
  classical
  have hsome : ∃ n, delim <:+ l.take n := by
    unfold Unended at h
    push Not at h
    obtain ⟨p, hp, hdelim⟩ := h
    exact ⟨p.length, by rwa [← List.prefix_iff_eq_take.1 hp]⟩
  refine ⟨l.take (Nat.find hsome), l.drop (Nat.find hsome), (List.take_append_drop _ l).symm,
    Nat.find_spec hsome, fun p hp hdelim => ?_⟩
  have hpl : p = l.take p.length := List.prefix_iff_eq_take.1 (hp.trans (List.take_prefix _ l))
  have hmin : Nat.find hsome ≤ p.length := Nat.find_min' hsome (hpl ▸ hdelim)
  refine hp.eq_of_length_le ?_
  rw [List.length_take]
  exact Nat.le_trans (Nat.min_le_left _ _) hmin

theorem Segment.ne_nil (h : Segment delim seg) (hdelim : delim ≠ []) : seg ≠ [] := by
  rintro rfl
  exact hdelim (List.suffix_nil.1 h.ends)

/-- **A stream is cut into segments.** -/
theorem exists_segments (hdelim : delim ≠ []) (l : List α) :
    ∃ (segs : List (List α)) (rest : List α), l = segs.flatten ++ rest ∧ (∀ seg ∈ segs, Segment delim seg) ∧ Unended delim rest := by
  induction hn : l.length using Nat.strong_induction_on generalizing l with
  | _ n ih =>
    by_cases hl : Unended delim l
    · exact ⟨[], l, rfl, nofun, hl⟩
    · obtain ⟨seg, tail, rfl, hseg⟩ := exists_segment hl
      have hlt : tail.length < n := by
        have hpos := List.length_pos_iff.2 (hseg.ne_nil hdelim)
        rw [List.length_append] at hn
        omega
      obtain ⟨segs, rest, rfl, hsegs, hrest⟩ := ih _ hlt tail rfl
      exact ⟨seg :: segs, rest, by simp, List.forall_mem_cons.2 ⟨hseg, hsegs⟩, hrest⟩

end Segments
