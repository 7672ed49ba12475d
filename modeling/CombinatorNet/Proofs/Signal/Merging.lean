import CombinatorNet.Proofs.Signal.Sums

/-!
# The laws of merging

Signal sets merge like integers add, as long as nothing saturates: merging is commutative, and a set
and its negative cancel each other. Where values saturate, merging is associative only if no value
is taken away from what was lost at a bound, and then the order of several sets does not matter
either. All of this holds of the sets themselves, with the signals that are present in them.

## Main definitions

* `AgreeInSign` — two values that are not on opposite sides of 0

## Main results

* `SignalSet.merge_comm`, `SignalSet.negated_negated`, `SignalSet.negated_merge`,
  `SignalSet.merge_negated` — merging and negating
* `SignalSet.merge_assoc` — merging three sets in two ways
* `SignalSet.get_mergeAll_of_perm` — merging sets in any order
* `SignalSet.merging_laws` — the laws together
-/

namespace CombinatorNet

/-- One value is not positive where the other one is negative. -/
def AgreeInSign (v w : Int) : Prop := 0 ≤ v ∧ 0 ≤ w ∨ v ≤ 0 ∧ w ≤ 0

instance (v w : Int) : Decidable (AgreeInSign v w) := inferInstanceAs (Decidable (_ ∨ _))

variable {values : List Int}

/-- Values that agree in sign two by two are all of one sign. -/
theorem forall_nonneg_or_forall_nonpos (h : values.Pairwise AgreeInSign) :
    (∀ v ∈ values, 0 ≤ v) ∨ ∀ v ∈ values, v ≤ 0 := by
  induction h with
  | nil => exact .inl (List.forall_mem_nil _)
  | @cons v values hv _ ih =>
    simp only [List.forall_mem_cons]
    -- A value of 0 leaves the sign open, any other one settles it for the values behind it.
    rcases Int.lt_trichotomy v 0 with hneg | rfl | hpos
    · refine .inr ⟨hneg.le, fun w hw => ?_⟩
      have := hv w hw
      rw [AgreeInSign] at this
      omega
    · exact ih.imp (⟨Int.le_refl 0, ·⟩) (⟨Int.le_refl 0, ·⟩)
    · refine .inl ⟨hpos.le, fun w hw => ?_⟩
      have := hv w hw
      rw [AgreeInSign] at this
      omega

theorem OrderFree.of_pairwise (h : values.Pairwise AgreeInSign) : OrderFree values :=
  (forall_nonneg_or_forall_nonpos h).imp_right .inl

namespace SignalSet

variable {s t u : SignalSet}

/-! ### Two sets -/

theorem merge_comm (hs : s.Canonical) (ht : t.Canonical) : s.merge t = t.merge s := by
  refine ext_get (canonical_merge hs t) (canonical_merge ht s) fun name => ?_
  rw [get_merge hs, get_merge ht, Int.add_comm]

theorem negated_negated (hs : s.Canonical) : s.negated.negated = s := by
  refine ext_get (hs.negated.negated) hs fun name => ?_
  rw [get_negated, get_negated, Int.neg_neg]

theorem negated_merge (hs : s.Canonical) (t : SignalSet) :
    (s.merge t).negated = s.negated.merge t.negated := by
  refine ext_get (canonical_merge hs t).negated (canonical_merge hs.negated _) fun name => ?_
  rw [get_negated, get_merge hs, get_merge hs.negated, get_negated, get_negated, ← saturate_neg,
    Int.neg_add]

/-- A set and its negative cancel each other. -/
theorem merge_negated (hs : s.Canonical) : s.merge s.negated = ∅ := by
  refine ext_get (canonical_merge hs _) canonical_empty fun name => ?_
  rw [get_merge hs, get_negated, Int.add_right_neg, saturate_zero, get_empty]

/-! ### Several sets -/

/-- Merging one set after the other is merging a list of them. -/
theorem mergeAll_triple (hs : s.Canonical) (t u : SignalSet) :
    mergeAll [s, t, u] = (s.merge t).merge u := by
  have hfirst : empty.merge s = s := merge_comm canonical_empty hs
  simp only [mergeAll, List.foldl_cons, List.foldl_nil, hfirst]

/-- Sets whose values add up to the same in any order can be merged in any order. -/
theorem get_mergeAll_of_perm {sets others : List SignalSet} {name : String}
    (h : OrderFree (sets.map (·.get name))) (hperm : others.Perm sets) :
    (mergeAll others).get name = saturate (total (sets.map (·.get name))) := by
  have hvalues := hperm.map (·.get name)
  rw [get_mergeAll, (h.perm hvalues.symm).saturatedSum_eq, total_perm hvalues]

/-- Merging is associative where the three values of each signal add up to the same in any order. -/
theorem merge_assoc (hs : s.Canonical) (ht : t.Canonical)
    (h : ∀ name, OrderFree [s.get name, t.get name, u.get name]) :
    (s.merge t).merge u = s.merge (t.merge u) := by
  have hperm : [t, u, s].Perm [s, t, u] := List.perm_append_singleton s [t, u]
  calc (s.merge t).merge u = mergeAll [s, t, u] := (mergeAll_triple hs t u).symm
    _ = mergeAll [t, u, s] := by
      refine ext_get (canonical_mergeAll _) (canonical_mergeAll _) fun name => ?_
      have hfree : OrderFree ([s, t, u].map (·.get name)) := h name
      rw [get_mergeAll_of_perm hfree hperm, get_mergeAll_of_perm hfree (.refl _)]
    _ = (t.merge u).merge s := mergeAll_triple ht u s
    _ = s.merge (t.merge u) := merge_comm (canonical_merge ht u) hs

/-- Merging canonical sets is commutative, negating one twice gives it back, the negative of a
merged set is that of the two negatives, and a set and its negative have no signals together. Merging
is associative if, for each signal, no two of the values are on opposite sides of 0 or the magnitudes
make up no more than the bound. Sets whose values agree in sign give the exact sum of each signal,
saturated at the end, in whichever order they are merged. -/
theorem merging_laws {a b : SignalSet} (ha : a.Canonical) (hb : b.Canonical) (c : SignalSet) :
    a.merge b = b.merge a ∧ a.negated.negated = a ∧
    (a.merge b).negated = a.negated.merge b.negated ∧ a.merge a.negated = ∅ ∧
    ((∀ name, [a.get name, b.get name, c.get name].Pairwise AgreeInSign ∨
        (a.get name).natAbs + (b.get name).natAbs + (c.get name).natAbs ≤ 2147483647) →
      (a.merge b).merge c = a.merge (b.merge c)) ∧
    ∀ sets : List SignalSet, (∀ name, (sets.map (·.get name)).Pairwise AgreeInSign) →
      ∀ order, order.Perm sets → (mergeAll order).Canonical ∧
        ∀ name, (mergeAll order).get name = saturate (total (sets.map (·.get name))) := by
  refine ⟨merge_comm ha hb, negated_negated ha, negated_merge ha b, merge_negated ha,
    fun h => merge_assoc ha hb fun name => ?_, fun sets h order hperm =>
      ⟨canonical_mergeAll order, fun name => get_mergeAll_of_perm (.of_pairwise (h name)) hperm⟩⟩
  rcases h name with hsigns | hsmall
  · exact .of_pairwise hsigns
  · refine .inr (.inr ?_)
    simp only [List.map_cons, List.map_nil, total, List.foldr_cons, List.foldr_nil, signalMax]
    omega

/-- Water at the bound, and a leak. -/
def fullTank : SignalSet := (single "water" 2147483647).set "leak" 3

/-- More water, and the leak closed. -/
def refill : SignalSet := (single "water" 5).set "leak" (-3)

theorem merging_laws_fullTank : fullTank.Canonical ∧ refill.Canonical ∧
    fullTank.merge refill = refill.merge fullTank ∧ fullTank.merge fullTank.negated = ∅ ∧
    (fullTank.merge refill).merge refill = fullTank.merge (refill.merge refill) ∧
    (∀ name, (mergeAll [refill, refill]).get name =
      saturate (total ([refill, refill].map (·.get name)))) := by
  have hfull : fullTank.Canonical := canonical_set (canonical_set canonical_empty _ _) _ _
  have hrefill : refill.Canonical := canonical_set (canonical_set canonical_empty _ _) _ _
  have hsmall : ∀ name,
      [fullTank.get name, refill.get name, refill.get name].Pairwise AgreeInSign ∨
        (fullTank.get name).natAbs + (refill.get name).natAbs + (refill.get name).natAbs ≤
          2147483647 := by
    intro name
    simp only [fullTank, refill, get_set, get_single]
    split_ifs <;> decide
  have hsame : ∀ name, ([refill, refill].map (·.get name)).Pairwise AgreeInSign := by
    intro name
    simp only [refill, List.map_cons, List.map_nil, get_set, get_single]
    split_ifs <;> decide
  obtain ⟨hcomm, -, -, hcancel, hassoc, hlist⟩ := merging_laws hfull hrefill refill
  exact ⟨hfull, hrefill, hcomm, hcancel, hassoc hsmall, (hlist _ hsame _ (.refl _)).2⟩

end SignalSet

end CombinatorNet
