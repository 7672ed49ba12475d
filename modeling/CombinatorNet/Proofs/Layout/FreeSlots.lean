import CombinatorNet.Proofs.Layout.Termination
import Mathlib.Data.Nat.Nth
import Mathlib.Order.Interval.Finset.Nat

/-!
# Predictions number the free slots

The combinators take the slots without a pole, one after the other. So the combinator that comes a
number of places after the next one takes the free slot of that number, and a prediction is right
about it: it cannot stop at a slot with a pole, as one slot less would have left the same room, and
it cannot pass a free slot, as it stops at the first slot that leaves room enough.

## Main definitions

* `FreeFrom` — a slot from a given one on has no pole

## Main results

* `scheduledWithin_eq_card` — poles in different slots are counted by their slots
* `freeFrom_predict`, `count_freeFrom_predict` — a prediction is a free slot of the right number
* `predict_exact` — the laws of predictions
-/

namespace CombinatorNet

variable {schedule schedule' : List ScheduledPole} {first last offset slot : Nat}

/-- The slot is not before the first one, and no pole is scheduled there. -/
def FreeFrom (schedule : List ScheduledPole) (first slot : Nat) : Prop :=
  first ≤ slot ∧ slot ∉ schedule.map (·.slot)

instance : DecidablePred (FreeFrom schedule first) :=
  fun slot => inferInstanceAs (Decidable (first ≤ slot ∧ slot ∉ schedule.map (·.slot)))

/-! ### Counting by slots -/

/-- Where no two poles share a slot, the poles in a range are as many as its slots with one. -/
theorem scheduledWithin_eq_card (hnodup : (schedule.map (·.slot)).Nodup) (first last : Nat) :
    scheduledWithin schedule first last =
      ((Finset.Icc first last).filter (· ∈ schedule.map (·.slot))).card := by
  have hcount : scheduledWithin schedule first last =
      ((schedule.map (·.slot)).filter fun s => decide (first ≤ s) && decide (s ≤ last)).length := by
    rw [← List.countP_eq_length_filter, List.countP_map]
    rfl
  rw [hcount, ← List.toFinset_card_of_nodup (hnodup.filter _)]
  congr 1
  ext s
  simp only [List.mem_toFinset, List.mem_filter, Finset.mem_filter, Finset.mem_Icc,
    Bool.and_eq_true, decide_eq_true_eq]
  exact and_comm

/-- There are no more poles in a range than slots. -/
theorem scheduledWithin_le_card (hnodup : (schedule.map (·.slot)).Nodup) (first last : Nat) :
    scheduledWithin schedule first last ≤ last + 1 - first := by
  rw [scheduledWithin_eq_card hnodup, ← Nat.card_Icc]
  exact Finset.card_filter_le _ _

/-- Slots that keep their poles are counted as before, and others may come. -/
theorem scheduledWithin_le_of_subset (hnodup : (schedule.map (·.slot)).Nodup)
    (hnodup' : (schedule'.map (·.slot)).Nodup)
    (hsubset : schedule.map (·.slot) ⊆ schedule'.map (·.slot)) :
    scheduledWithin schedule first last ≤ scheduledWithin schedule' first last := by
  rw [scheduledWithin_eq_card hnodup, scheduledWithin_eq_card hnodup']
  exact Finset.card_le_card (Finset.monotone_filter_right _ fun _ _ hs => hsubset hs)

theorem scheduledWithin_pos (hfirst : first ≤ slot) (hmem : slot ∈ schedule.map (·.slot)) :
    0 < scheduledWithin schedule first slot := by
  obtain ⟨s, hs, rfl⟩ := List.mem_map.mp hmem
  exact List.countP_pos_iff.mpr ⟨s, hs, by simp [hfirst]⟩

/-- The last slot of a range counts if it has a pole. -/
theorem scheduledWithin_pred_lt (hnodup : (schedule.map (·.slot)).Nodup) (hfirst : first ≤ slot)
    (hpos : 0 < slot) (hmem : slot ∈ schedule.map (·.slot)) :
    scheduledWithin schedule first (slot - 1) < scheduledWithin schedule first slot := by
  rw [scheduledWithin_eq_card hnodup, scheduledWithin_eq_card hnodup]
  refine Finset.card_lt_card ⟨fun s hs => ?_, fun hsubset => ?_⟩
  · obtain ⟨hs, hs'⟩ := Finset.mem_filter.mp hs
    rw [Finset.mem_Icc] at hs
    exact Finset.mem_filter.mpr ⟨Finset.mem_Icc.mpr ⟨hs.1, by omega⟩, hs'⟩
  · have hlast := hsubset (Finset.mem_filter.mpr ⟨Finset.mem_Icc.mpr ⟨hfirst, Nat.le_refl _⟩, hmem⟩)
    have hle := (Finset.mem_Icc.mp (Finset.mem_filter.mp hlast).1).2
    omega

/-- The slots of a range have a pole or are free. -/
theorem count_freeFrom_add_scheduledWithin (hnodup : (schedule.map (·.slot)).Nodup)
    (hfree : FreeFrom schedule first slot) :
    Nat.count (FreeFrom schedule first) slot + scheduledWithin schedule first slot =
      slot - first := by
  have hscheduled : (Finset.Icc first slot).filter (· ∈ schedule.map (·.slot)) =
      (Finset.Ico first slot).filter (· ∈ schedule.map (·.slot)) := by
    ext s
    simp only [Finset.mem_filter, Finset.mem_Icc, Finset.mem_Ico]
    refine and_congr_left fun hs => and_congr_right fun _ => ?_
    have hne : s ≠ slot := fun heq => hfree.2 (heq ▸ hs)
    omega
  have hfrees : (Finset.range slot).filter (FreeFrom schedule first) =
      (Finset.Ico first slot).filter (· ∉ schedule.map (·.slot)) := by
    ext s
    simp only [Finset.mem_filter, Finset.mem_range, Finset.mem_Ico, FreeFrom]
    tauto
  rw [Nat.count_eq_card_filter_range, hfrees, scheduledWithin_eq_card hnodup, hscheduled,
    Nat.add_comm, Finset.card_filter_add_card_filter_not, Nat.card_Ico]

/-! ### The slot that is predicted -/

/-- A prediction does not stop at a pole, since the slot before it would leave as much room. -/
theorem freeFrom_predict (hnodup : (schedule.map (·.slot)).Nodup) (first offset : Nat) :
    FreeFrom schedule first (predict schedule first offset) := by
  have heq : predict schedule first offset =
      first + offset + scheduledWithin schedule first (predict schedule first offset) := predict_eq
  refine ⟨by omega, fun hmem => ?_⟩
  have hfirst : first ≤ predict schedule first offset := by omega
  have hsome := scheduledWithin_pos hfirst hmem
  have hless := scheduledWithin_pred_lt hnodup hfirst (by omega) hmem
  have hle : predict schedule first offset ≤ predict schedule first offset - 1 :=
    predict_le (by omega)
  omega

/-- As many free slots are before a predicted one as the offset says. -/
theorem count_freeFrom_predict (hnodup : (schedule.map (·.slot)).Nodup) (first offset : Nat) :
    Nat.count (FreeFrom schedule first) (predict schedule first offset) = offset := by
  have hsum := count_freeFrom_add_scheduledWithin hnodup (freeFrom_predict hnodup first offset)
  have heq : predict schedule first offset =
      first + offset + scheduledWithin schedule first (predict schedule first offset) := predict_eq
  omega

/-- Further poles never bring a combinator forward, whatever the order of the schedules. -/
theorem predict_le_of_subset (hnodup : (schedule.map (·.slot)).Nodup)
    (hnodup' : (schedule'.map (·.slot)).Nodup)
    (hsubset : schedule.map (·.slot) ⊆ schedule'.map (·.slot)) :
    predict schedule first offset ≤ predict schedule' first offset := by
  refine predict_le ?_
  have heq : predict schedule' first offset =
      first + offset + scheduledWithin schedule' first (predict schedule' first offset) :=
    predict_eq
  have hle : scheduledWithin schedule first (predict schedule' first offset) ≤
      scheduledWithin schedule' first (predict schedule' first offset) :=
    scheduledWithin_le_of_subset hnodup hnodup' hsubset
  omega

/-- A pole that lies behind plays no part in a prediction. -/
theorem predict_filter_ne (schedule : List ScheduledPole) (first offset : Nat) :
    predict (schedule.filter fun s => s.slot ≠ first) (first + 1) offset =
      predict schedule (first + 1) offset := by
  refine predict_congr (fun slot _ => congrArg _ ?_) (Nat.le_refl _)
  rw [scheduledWithin, scheduledWithin, List.countP_filter]
  refine List.countP_congr fun s _ => ?_
  simp only [Bool.and_eq_true, decide_eq_true_eq]
  omega

/-- Whatever poles are scheduled, in different slots, a prediction comes to an end, and yields the
free slot, counted from 0 from the next slot on, whose number is the offset. Further poles never
bring it forward. It stays the same when the next slot is filled: with its pole, whether or not this
pole is taken off the schedule; or with a combinator, which takes one off the offset. -/
theorem predict_exact (schedule : List ScheduledPole) (hnodup : (schedule.map (·.slot)).Nodup)
    (first offset : Nat) :
    (∃ rounds, Ends (moveOn schedule first (first + offset)) (first + offset) rounds
      (predict schedule first offset)) ∧
    FreeFrom schedule first (predict schedule first offset) ∧
    predict schedule first offset = Nat.nth (FreeFrom schedule first) offset ∧
    (∀ schedule' : List ScheduledPole, (schedule'.map (·.slot)).Nodup →
      schedule.map (·.slot) ⊆ schedule'.map (·.slot) →
      predict schedule first offset ≤ predict schedule' first offset) ∧
    (first ∈ schedule.map (·.slot) →
      predict schedule (first + 1) offset = predict schedule first offset ∧
      predict (schedule.filter fun s => s.slot ≠ first) (first + 1) offset =
        predict schedule first offset) ∧
    (first ∉ schedule.map (·.slot) →
      predict schedule (first + 1) offset = predict schedule first (offset + 1)) := by
  obtain ⟨rounds, -, hends⟩ := exists_ends_predict schedule first offset
  have hfree := freeFrom_predict hnodup first offset
  refine ⟨⟨rounds, hends⟩, hfree, ?_, fun schedule' hnodup' => predict_le_of_subset hnodup hnodup',
    fun hmem => ?_, fun hnone => (predict_past_free hnone).symm⟩
  · have hnth := Nat.nth_count hfree
    rw [count_freeFrom_predict hnodup] at hnth
    exact hnth.symm
  · have hpast : predict schedule first offset =
        predict (schedule.filter fun s => s.slot ≠ first) (first + 1) offset :=
      predict_past_pole hmem hnodup
    exact ⟨(predict_filter_ne schedule first offset).symm.trans hpast.symm, hpast.symm⟩

/-- From slot 2 on, the free slots are 3, 6, 8 and all that follow. -/
theorem predict_exact_twoRuns :
    let schedule : List ScheduledPole := [⟨7, 3⟩, ⟨4, 0⟩, ⟨5, 2⟩, ⟨2, 1⟩]
    (schedule.map (·.slot)).Nodup ∧ predict schedule 2 2 = 8 ∧
      Nat.nth (FreeFrom schedule 2) 2 = 8 ∧ predict schedule 3 2 = 8 ∧
      predict schedule 2 2 ≤ predict (⟨3, 4⟩ :: schedule) 2 2 := by
  intro schedule
  have hnodup : (schedule.map (·.slot)).Nodup := by decide
  have hpredict : predict schedule 2 2 = 8 := by decide
  obtain ⟨-, -, hnth, hmono, hpole, -⟩ := predict_exact schedule hnodup 2 2
  refine ⟨hnodup, hpredict, hnth.symm.trans hpredict, ?_, hmono _ (by decide) ?_⟩
  · exact (hpole (by decide)).1.trans hpredict
  · exact List.subset_cons_self _ _

end CombinatorNet
