/-!
# Classes of characters as code point ranges

A class of characters is a list of code point ranges, ends included, in ascending order.

## Main definitions

* `CharRanges` — the ranges
* `CharRanges.holds` — membership of a code point, which stops at the first range beyond it
* `CharRanges.Ascending` — each range is non-empty and ends before the later ones start

## Main results

* `CharRanges.holds_iff` — in an ascending list, membership is membership in one of the ranges
-/

namespace CombinatorNet

/-- Ranges of code points, each with its first and last member. -/
abbrev CharRanges := List (Nat × Nat)

namespace CharRanges

/-- Whether a code point is in one of the ranges; the search ends at the first range beyond it. -/
def holds : CharRanges → Nat → Bool
  | [], _ => false
  | (first, last) :: rest, n => decide (first ≤ n) && (decide (n ≤ last) || holds rest n)

/-- No range is empty, and each one ends before the next one starts. -/
def Ascending : CharRanges → Prop
  | [] => True
  | [(first, last)] => first ≤ last
  | (first, last) :: (first', last') :: rest =>
    first ≤ last ∧ last < first' ∧ Ascending ((first', last') :: rest)

/-- The executable form of `Ascending`. -/
def ascending : CharRanges → Bool
  | [] => true
  | [(first, last)] => decide (first ≤ last)
  | (first, last) :: (first', last') :: rest =>
    decide (first ≤ last) && decide (last < first') && ascending ((first', last') :: rest)

theorem ascending_iff {rs : CharRanges} : rs.ascending = true ↔ rs.Ascending := by
  fun_induction CharRanges.ascending rs with
  | case1 => simp [Ascending]
  | case2 => simp [Ascending]
  | case3 first last first' last' rest ih => simp [Ascending, ih, and_assoc]

instance (rs : CharRanges) : Decidable rs.Ascending := decidable_of_iff _ ascending_iff

theorem Ascending.tail {r : Nat × Nat} {rs : CharRanges} (h : Ascending (r :: rs)) :
    Ascending rs := by
  cases rs with
  | nil => trivial
  | cons s rs => exact h.2.2

theorem Ascending.first_le {r s : Nat × Nat} {rs : CharRanges} (h : Ascending (r :: rs))
    (hs : s ∈ r :: rs) : r.1 ≤ s.1 := by
  induction rs generalizing r with
  | nil => exact Nat.le_of_eq (congrArg Prod.fst (List.mem_singleton.1 hs).symm)
  | cons t rs ih =>
    rcases List.mem_cons.1 hs with rfl | hs
    · exact Nat.le_refl _
    · exact Nat.le_trans (Nat.le_trans h.1 (Nat.le_of_lt h.2.1)) (ih h.tail hs)

/-- In an ascending list, a code point belongs to the class exactly if some range holds it. -/
theorem holds_iff {rs : CharRanges} (h : rs.Ascending) {n : Nat} :
    rs.holds n = true ↔ ∃ r ∈ rs, r.1 ≤ n ∧ n ≤ r.2 := by
  induction rs with
  | nil => simp [holds]
  | cons r rs ih =>
    obtain ⟨first, last⟩ := r
    rw [holds, Bool.and_eq_true, Bool.or_eq_true, decide_eq_true_iff, decide_eq_true_iff,
      ih h.tail]
    constructor
    · rintro ⟨hlo, hhi | ⟨s, hs, hn⟩⟩
      · exact ⟨_, List.mem_cons_self, hlo, hhi⟩
      · exact ⟨s, List.mem_cons_of_mem _ hs, hn⟩
    · rintro ⟨s, hs, hlo, hhi⟩
      refine ⟨Nat.le_trans (h.first_le hs) hlo, ?_⟩
      rcases List.mem_cons.1 hs with rfl | hs
      · exact .inl hhi
      · exact .inr ⟨s, hs, hlo, hhi⟩

end CharRanges

end CombinatorNet
