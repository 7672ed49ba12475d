import CombinatorNet.Network.Checked
import CombinatorNet.Proofs.Signal.Sums

/-!
# Sums of literals

The values of a constant statement are collected one by one. Each is a literal of a signed 64-bit
word, and is added in such a word to what its signal has so far, before the total saturates. The sum
of a literal near the end of the word and a total of the same sign does not fit into the word. With
overflow checks this is a panic; in a release build the total saturates at the opposite bound.

## Main definitions

* `SignalSet.literalsOf` — the literals that a list has for a signal
* `SignalSet.SumsFit` — no sum goes beyond the word while a list is collected

## Main results

* `saturate_literalTotal` — a total that does not fit saturates at the opposite bound
* `SignalSet.collectChecked_eq_some_iff` — with overflow checks, literals are collected just if all
  sums fit
* `SignalSet.sumsFit_iff_exact` — the collected sets are the saturating sums just if all sums fit
* `SignalSet.collect_overflows` — a statement whose sums do not fit
-/

namespace CombinatorNet

/-- A sum with a literal saturates as it should if it fits in the word, and else at the opposite
bound. -/
theorem saturate_literalTotal {acc v : Int} (hacc : InRange acc) (hv : FitsWord v) :
    saturate (literalTotal acc v) =
      if FitsWord (acc + v) then saturate (acc + v) else -saturate (acc + v) := by
  obtain ⟨hlow, hhigh⟩ := hacc
  obtain ⟨hleast, hmost⟩ := hv
  rw [signalMax] at hlow hhigh
  split
  · next hfits => rw [literalTotal_eq_add hfits]
  · next hno =>
    -- The word wraps around once, upward or downward.
    have hwrap : literalTotal acc v = acc + v - 0x10000000000000000 ∧ 0 < acc + v ∨
        literalTotal acc v = acc + v + 0x10000000000000000 ∧ acc + v < 0 := by
      rw [FitsWord] at hno
      rw [literalTotal, Int.bmod_def]
      omega
    rw [FitsWord] at hno
    simp only [saturate, signalMax]
    omega

/-- So only a sum that fits saturates as it should. -/
theorem saturate_literalTotal_eq_iff {acc v : Int} (hacc : InRange acc) (hv : FitsWord v) :
    saturate (literalTotal acc v) = saturate (acc + v) ↔ FitsWord (acc + v) := by
  rw [saturate_literalTotal hacc hv]
  split
  · next hfits => exact iff_of_true rfl hfits
  · next hno =>
    refine iff_of_false (fun heq => hno ?_) hno
    simp only [saturate, signalMax] at heq
    exact ⟨by omega, by omega⟩

namespace SignalSet

variable {pairs before : List (String × Int)} {name : String}

/-- The literals that a list has for a signal, in their order. -/
def literalsOf (name : String) (pairs : List (String × Int)) : List Int :=
  (pairs.filter fun e => e.1 = name).map Prod.snd

/-- While a list is collected, each literal and what its signal has so far make up a sum that fits
in a signed 64-bit word. -/
def SumsFit (pairs : List (String × Int)) : Prop :=
  ∀ before e, before ++ [e] <+: pairs → FitsWord ((collect before).get e.1 + e.2)

theorem collect_concat (pairs : List (String × Int)) (e : String × Int) :
    collect (pairs ++ [e]) =
      (collect pairs).set e.1 (literalTotal ((collect pairs).get e.1) e.2) := by
  rw [collect, List.foldl_concat]
  rfl

theorem literalsOf_concat (name : String) (pairs : List (String × Int)) (e : String × Int) :
    literalsOf name (pairs ++ [e]) =
      if e.1 = name then literalsOf name pairs ++ [e.2] else literalsOf name pairs := by
  rw [literalsOf, List.filter_append, List.map_append, ← literalsOf]
  split
  · next heq => simp [heq]
  · next hne => simp [hne]

theorem saturatedSum_concat (values : List Int) (v : Int) :
    saturatedSum (values ++ [v]) = saturate (saturatedSum values + v) := by
  rw [saturatedSum, List.foldl_concat]
  rfl

/-- One more literal counts only for its own signal. -/
theorem get_collect_concat (pairs : List (String × Int)) (e : String × Int) (name : String) :
    (collect (pairs ++ [e])).get name =
      if name = e.1 then saturate (literalTotal ((collect pairs).get e.1) e.2)
      else (collect pairs).get name := by
  rw [collect_concat, get_set]

/-- As long as the sums fit, each signal has the saturating sum of its literals. -/
theorem SumsFit.get_collect (h : SumsFit pairs) (name : String) :
    (collect pairs).get name = saturatedSum (literalsOf name pairs) := by
  -- By induction on the literals before the last one.
  induction pairs using List.reverseRecOn with
  | nil => rfl
  | append_singleton pairs e ih =>
    have hbefore := ih fun before e' hpart => h before e' (hpart.trans (List.prefix_append _ _))
    have hfits : FitsWord ((collect pairs).get e.1 + e.2) := h pairs e (List.prefix_refl _)
    rw [get_collect_concat, literalsOf_concat]
    by_cases hname : name = e.1
    · subst hname
      rw [if_pos rfl, if_pos rfl, saturatedSum_concat, ← hbefore, literalTotal_eq_add hfits]
    · rw [if_neg hname, if_neg fun heq => hname heq.symm, hbefore]

theorem SumsFit.of_prefix (h : SumsFit pairs) (hpart : before <+: pairs) : SumsFit before :=
  fun _ _ hmore => h _ _ (hmore.trans hpart)

/-- A signal that is not in a list has no value. -/
theorem get_collect_of_notMem (h : name ∉ pairs.map Prod.fst) : (collect pairs).get name = 0 := by
  by_contra hne
  exact h (mem_of_mem_present_collect ((mem_present_iff (canonical_collect pairs)).mpr hne))

/-- The sums fit if no literal is near the ends of the word. -/
theorem sumsFit_of_small (h : ∀ e ∈ pairs, e.2.natAbs ≤ 0x8000000000000000 - 0x80000000) :
    SumsFit pairs := by
  intro before e hpart
  have hsmall := h e (hpart.subset (List.mem_append_right _ (List.mem_singleton_self e)))
  obtain ⟨hlow, hhigh⟩ := inRange_get (canonical_collect before) e.1
  rw [signalMax] at hlow hhigh
  exact ⟨by omega, by omega⟩

/-- The sums fit if each signal has one literal only. -/
theorem sumsFit_of_nodup (hfits : ∀ e ∈ pairs, FitsWord e.2) (h : (pairs.map Prod.fst).Nodup) :
    SumsFit pairs := by
  intro before e hpart
  have hnodup := h.sublist (hpart.sublist.map Prod.fst)
  rw [List.map_append, List.map_singleton, List.nodup_append] at hnodup
  have hnew : e.1 ∉ before.map Prod.fst :=
    fun hmem => hnodup.2.2 _ hmem _ (List.mem_singleton_self _) rfl
  rw [get_collect_of_notMem hnew, Int.zero_add]
  exact hfits e (hpart.subset (List.mem_append_right _ (List.mem_singleton_self e)))

theorem sumsFit_concat_iff {e : String × Int} :
    SumsFit (pairs ++ [e]) ↔ SumsFit pairs ∧ FitsWord ((collect pairs).get e.1 + e.2) := by
  refine ⟨fun h => ⟨h.of_prefix (List.prefix_append _ _), h _ _ (List.prefix_refl _)⟩, ?_⟩
  rintro ⟨h, hlast⟩ before e' hpart
  rcases List.prefix_concat_iff.mp hpart with heq | hpart
  · obtain ⟨rfl, hsame⟩ := List.append_inj' heq rfl
    cases hsame
    exact hlast
  · exact h before e' hpart

theorem collectChecked_concat (pairs : List (String × Int)) (e : String × Int) :
    collectChecked (pairs ++ [e]) = (collectChecked pairs).bind fun s =>
      (literalTotalChecked (s.get e.1) e.2).map (s.set e.1) := by
  rw [collectChecked, List.foldlM_append]
  simp [collectChecked, Option.map_eq_bind]

/-- With overflow checks, the set is the same as in a release build, and there is one only if all
sums fit. -/
theorem collectChecked_eq_some_iff {s : SignalSet} :
    collectChecked pairs = some s ↔ SumsFit pairs ∧ s = collect pairs := by
  -- By induction on the literals before the last one.
  induction pairs using List.reverseRecOn generalizing s with
  | nil =>
    have hfit : SumsFit [] := fun before e hpart => by simp at hpart
    exact ⟨fun h => ⟨hfit, (Option.some_inj.mp h).symm⟩, fun h => congrArg some h.2.symm⟩
  | append_singleton pairs e ih =>
    rw [collectChecked_concat, sumsFit_concat_iff, collect_concat, Option.bind_eq_some_iff]
    constructor
    · rintro ⟨front, hfront, hset⟩
      obtain ⟨hfit, rfl⟩ := ih.mp hfront
      obtain ⟨total, htotal, rfl⟩ := Option.map_eq_some_iff.mp hset
      obtain ⟨hlast, rfl⟩ := inWord?_eq_some_iff.mp htotal
      exact ⟨⟨hfit, hlast⟩, by rw [literalTotal_eq_add hlast]⟩
    · rintro ⟨⟨hfit, hlast⟩, rfl⟩
      refine ⟨_, ih.mpr ⟨hfit, rfl⟩, ?_⟩
      rw [literalTotalChecked, inWord?_eq_some hlast, literalTotal_eq_add hlast]
      rfl

/-- Literals of 64 bits are collected to a set without zeros. With overflow checks, they are
collected to the same set, and only if no sum on the way goes beyond the word. Each signal has the
saturating sum of its literals at any point of the list exactly in this case. No sum goes beyond the
word if each signal has one literal only, or if no literal is within 2³¹ of the ends of the word. -/
theorem sumsFit_iff_exact {pairs : List (String × Int)} (hfits : ∀ e ∈ pairs, FitsWord e.2) :
    (collect pairs).Canonical ∧
    (∀ s, collectChecked pairs = some s ↔ SumsFit pairs ∧ s = collect pairs) ∧
    (SumsFit pairs ↔ ∀ before, before <+: pairs →
      ∀ name, (collect before).get name = saturatedSum (literalsOf name before)) ∧
    ((pairs.map Prod.fst).Nodup ∨
        (∀ e ∈ pairs, e.2.natAbs ≤ 0x8000000000000000 - 0x80000000) → SumsFit pairs) := by
  refine ⟨canonical_collect pairs, fun s => collectChecked_eq_some_iff,
    ⟨fun h before hpart name => ?_, fun h before e hpart => ?_⟩,
    fun h => h.elim (sumsFit_of_nodup hfits) sumsFit_of_small⟩
  · exact (h.of_prefix hpart).get_collect name
  · -- The signal is exact in front of its literal and behind it, so the sum must have fitted.
    have hbehind := h _ hpart e.1
    have hfront := h before ((List.prefix_append _ _).trans hpart) e.1
    rw [get_collect_concat, if_pos rfl, literalsOf_concat, if_pos rfl, saturatedSum_concat,
      ← hfront] at hbehind
    have hlast : e ∈ pairs :=
      hpart.subset (List.mem_append_right _ (List.mem_singleton_self e))
    have hrange := inRange_get (canonical_collect before) e.1
    exact (saturate_literalTotal_eq_iff hrange (hfits e hlast)).mp hbehind

/-- Two signals with literals at both ends of the word. -/
def bothEnds : List (String × Int) := [("x", -0x8000000000000000), ("y", 0x7fffffffffffffff)]

theorem sumsFit_iff_exact_bothEnds : SumsFit bothEnds ∧
    collectChecked bothEnds = some (collect bothEnds) ∧
    (∀ name, (collect bothEnds).get name = saturatedSum (literalsOf name bothEnds)) ∧
    (collect bothEnds).get "x" = -2147483647 ∧ (collect bothEnds).get "y" = 2147483647 := by
  have hword : ∀ e ∈ bothEnds, FitsWord e.2 := by decide
  obtain ⟨-, hchecked, hexact, hfits⟩ := sumsFit_iff_exact hword
  have hfit : SumsFit bothEnds := hfits (.inl (by decide))
  exact ⟨hfit, (hchecked _).mpr ⟨hfit, rfl⟩, hexact.mp hfit _ (List.prefix_refl _), by decide,
    by decide⟩

end SignalSet

/-- A constant with two literals for a signal, whose sum does not fit in a signed 64-bit word. -/
def overflowingConstant : String := "Main() \x7b \x7bx: 1, x: 9223372036854775807\x7d -> W \x7d"

/-- With overflow checks there is no such network. In a release build the signal has the least value
where the sum of its literals saturates at the greatest one. -/
theorem SignalSet.collect_overflows : (compileChecked overflowingConstant {}).run = none ∧
    ∃ n, compile overflowingConstant {} = .ok n ∧ (n.step.wire "W").get "x" = -2147483647 ∧
    saturatedSum (literalsOf "x" [("x", 1), ("x", 9223372036854775807)]) = 2147483647 ∧
    ¬ SumsFit [("x", 1), ("x", 9223372036854775807)] := by
  have hpanics : (compileChecked overflowingConstant {}).run.isNone := by decide +kernel
  have hvalue : ((compile overflowingConstant {}).map fun n => (n.step.wire "W").get "x") =
      .ok (-2147483647) := by decide +kernel
  cases hcompile : compile overflowingConstant {} with
  | error e => rw [hcompile] at hvalue; cases hvalue
  | ok n =>
    rw [hcompile] at hvalue
    refine ⟨Option.isNone_iff_eq_none.mp hpanics, n, rfl, Except.ok.inj hvalue, by decide,
      fun hfit => ?_⟩
    exact absurd (hfit [("x", 1)] ("x", 9223372036854775807) (List.prefix_refl _)) (by decide)

end CombinatorNet
