import CombinatorNet.Layout.Placement
import Mathlib.Data.Nat.Basic
import Mathlib.Order.Basic

/-!
# Predicted slots

The slot of a pending combinator is found by moving a guess on until no further pole comes into its
way. The result is the least slot that is far enough behind the next one when the poles scheduled up
to it are counted; the laws below all follow from that, and say that the prediction stays right
while the pass moves on.

## Main results

* `predict_eq`, `predict_le` — the prediction is the least slot with enough room before it
* `predict_mono` — further poles never bring a combinator forward
* `predict_of_free` — the next combinator takes the next slot if no pole is scheduled there
* `predict_past_free`, `predict_past_pole` — filling a slot changes no prediction
-/

namespace CombinatorNet

variable {schedule schedule' : List ScheduledPole} {first last offset slot : Nat}

theorem mem_slots_iff : slot ∈ schedule.map (·.slot) ↔ ∃ pole, ⟨slot, pole⟩ ∈ schedule := by
  constructor
  · intro h
    obtain ⟨s, hs, rfl⟩ := List.mem_map.mp h
    exact ⟨s.pole, hs⟩
  · rintro ⟨pole, h⟩
    exact List.mem_map.mpr ⟨_, h, rfl⟩

theorem isScheduled_iff : isScheduled schedule slot = true ↔ slot ∈ schedule.map (·.slot) := by
  simp [isScheduled]

/-! ### Counting scheduled poles -/

theorem scheduledWithin_mono {last' : Nat} (h : last ≤ last') :
    scheduledWithin schedule first last ≤ scheduledWithin schedule first last' := by
  refine List.countP_mono_left fun s _ hs => ?_
  simp only [Bool.and_eq_true, decide_eq_true_eq] at hs ⊢
  exact ⟨hs.1, hs.2.trans h⟩

theorem scheduledWithin_le_length (schedule : List ScheduledPole) (first last : Nat) :
    scheduledWithin schedule first last ≤ schedule.length :=
  List.countP_le_length

theorem scheduledWithin_sublist (h : schedule.Sublist schedule') :
    scheduledWithin schedule first last ≤ scheduledWithin schedule' first last :=
  h.countP_le

/-- A slot without a pole can be left out of the range. -/
theorem scheduledWithin_of_free (hfree : first ∉ schedule.map (·.slot)) :
    scheduledWithin schedule first last = scheduledWithin schedule (first + 1) last := by
  refine List.countP_congr fun s hs => ?_
  have hne : s.slot ≠ first := fun h => hfree (List.mem_map.mpr ⟨s, hs, h⟩)
  simp only [Bool.and_eq_true, decide_eq_true_eq]
  omega

/-- A slot with a pole counts once. -/
theorem scheduledWithin_of_pole (hmem : first ∈ schedule.map (·.slot))
    (hnodup : (schedule.map (·.slot)).Nodup) (hlast : first ≤ last) :
    scheduledWithin schedule first last =
      scheduledWithin (schedule.filter fun s => s.slot ≠ first) (first + 1) last + 1 := by
  -- By induction on the schedule: the pole is its head, or the head counts the same either way.
  induction schedule with
  | nil => simp at hmem
  | cons s rest ih =>
    rw [List.map_cons, List.nodup_cons] at hnodup
    by_cases hs : s.slot = first
    · -- No other pole has this slot, so the filter drops nothing else.
      have hrest : first ∉ rest.map (·.slot) := hs ▸ hnodup.1
      have hfilter : rest.filter (fun s => s.slot ≠ first) = rest := by
        refine List.filter_eq_self.mpr fun t ht => ?_
        have : t.slot ≠ first := fun h => hrest (List.mem_map.mpr ⟨t, ht, h⟩)
        simpa using this
      have hcount : scheduledWithin rest first last = scheduledWithin rest (first + 1) last :=
        scheduledWithin_of_free hrest
      rw [List.filter_cons_of_neg (by simpa using hs), hfilter]
      simp only [scheduledWithin] at hcount ⊢
      rw [List.countP_cons_of_pos (by simp [hs, hlast]), hcount]
    · -- The head is kept, and it lies in the range or not whether this starts at `first` or later.
      have hmem' : first ∈ rest.map (·.slot) := by
        rcases List.mem_cons.mp hmem with h | h
        · exact absurd h.symm hs
        · exact h
      have hcount := ih hmem' hnodup.2
      rw [List.filter_cons_of_pos (by simpa using hs)]
      simp only [scheduledWithin, List.countP_cons] at hcount ⊢
      rw [hcount]
      have hhead : (first ≤ s.slot) ↔ (first + 1 ≤ s.slot) := by omega
      simp only [hhead]
      omega

/-! ### The prediction as a least slot -/

theorem makeRoom_eq {wanted rounds : Nat}
    (hslot : slot ≤ wanted + scheduledWithin schedule first slot)
    (hrounds : wanted + schedule.length < rounds + slot) :
    makeRoom schedule first wanted rounds slot =
      wanted + scheduledWithin schedule first (makeRoom schedule first wanted rounds slot) := by
  induction rounds generalizing slot with
  | zero =>
    -- No slot is further behind than there are poles, so the rounds cannot have run out.
    have := scheduledWithin_le_length schedule first slot
    omega
  | succ rounds ih =>
    rw [makeRoom]
    split
    · next h => exact h.symm
    · next h =>
      -- A round that goes on has moved the slot, so the rounds run out no earlier than the poles.
      have hmoved : slot < wanted + scheduledWithin schedule first slot := by omega
      refine ih ?_ (by omega)
      exact Nat.add_le_add_left (scheduledWithin_mono (by omega)) _

theorem makeRoom_le {wanted rounds bound : Nat} (hslot : slot ≤ bound)
    (hbound : wanted + scheduledWithin schedule first bound ≤ bound) :
    makeRoom schedule first wanted rounds slot ≤ bound := by
  induction rounds generalizing slot with
  | zero => exact hslot
  | succ rounds ih =>
    rw [makeRoom]
    split
    · exact hslot
    · exact ih ((Nat.add_le_add_left (scheduledWithin_mono hslot) _).trans hbound)

/-- The predicted slot is as far behind the first wanted one as poles are scheduled up to it. -/
theorem predict_eq : predict schedule first offset =
    first + offset + scheduledWithin schedule first (predict schedule first offset) :=
  makeRoom_eq (by omega) (by omega)

/-- No earlier slot leaves enough room. -/
theorem predict_le {bound : Nat}
    (h : first + offset + scheduledWithin schedule first bound ≤ bound) :
    predict schedule first offset ≤ bound :=
  makeRoom_le (by omega) h

theorem le_predict : first + offset ≤ predict schedule first offset := by
  rw [predict_eq]
  exact Nat.le_add_right _ _

/-- Further poles never bring a combinator forward. -/
theorem predict_mono (h : schedule.Sublist schedule') :
    predict schedule first offset ≤ predict schedule' first offset := by
  -- The prediction for all the poles leaves room enough for some of them.
  refine predict_le ?_
  have heq : predict schedule' first offset =
      first + offset + scheduledWithin schedule' first (predict schedule' first offset) :=
    predict_eq
  have hle : scheduledWithin schedule first (predict schedule' first offset) ≤
      scheduledWithin schedule' first (predict schedule' first offset) := scheduledWithin_sublist h
  omega

/-- Predictions agree where the same slots leave enough room. -/
theorem predict_congr {first' offset' : Nat}
    (h : ∀ slot, first + offset ≤ slot → (first + offset + scheduledWithin schedule first slot =
      first' + offset' + scheduledWithin schedule' first' slot))
    (hle : first + offset ≤ first' + offset') :
    predict schedule first offset = predict schedule' first' offset' := by
  -- Each prediction leaves enough room for the other one to come no later.
  apply Nat.le_antisymm
  · refine predict_le ?_
    rw [h _ (hle.trans le_predict)]
    exact predict_eq.ge
  · refine predict_le ?_
    rw [← h _ le_predict]
    exact predict_eq.ge

/-- The next combinator takes the next slot if no pole is scheduled there. -/
theorem predict_of_free (hfree : first ∉ schedule.map (·.slot)) :
    predict schedule first 0 = first := by
  apply Nat.le_antisymm
  · refine predict_le ?_
    rw [scheduledWithin_of_free hfree]
    have : scheduledWithin schedule (first + 1) first = 0 := by
      refine List.countP_eq_zero.mpr fun s _ => ?_
      simp only [Bool.and_eq_true, decide_eq_true_eq]
      omega
    omega
  · exact (Nat.add_zero first).ge.trans le_predict

/-- Filling a slot with a combinator changes no prediction for a later one. -/
theorem predict_past_free (hfree : first ∉ schedule.map (·.slot)) :
    predict schedule first (offset + 1) = predict schedule (first + 1) offset := by
  refine predict_congr (fun slot _ => ?_) (by omega)
  rw [scheduledWithin_of_free hfree]
  omega

/-- Filling a slot with its pole changes no prediction. -/
theorem predict_past_pole (hmem : first ∈ schedule.map (·.slot))
    (hnodup : (schedule.map (·.slot)).Nodup) :
    predict schedule first offset =
      predict (schedule.filter fun s => s.slot ≠ first) (first + 1) offset := by
  refine predict_congr (fun slot hslot => ?_) (by omega)
  rw [scheduledWithin_of_pole hmem hnodup (by omega)]
  omega

end CombinatorNet
