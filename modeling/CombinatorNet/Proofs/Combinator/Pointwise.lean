import CombinatorNet.Combinator.Basic
import CombinatorNet.Proofs.Signal.Sums

/-!
# What combinators write, signal by signal

The output of a combinator is given here as one value for each signal name, in terms of the values
that the combinator reads, and the set that it computes is shown to hold these values.

## Main definitions

* `Condition.Met` — a condition in terms of the present signals
* `Combinator.writes` — the value that a combinator writes for a signal

## Main results

* `Condition.holds_iff` — the test of a decider decides its condition
* `Combinator.get_output` — the output of a combinator through `get`
* `Combinator.canonical_output` — the output is canonical
-/

namespace CombinatorNet

variable {input : SignalSet}

/-- The left side of a decider passes its test: the value does, or some present signal, or all. -/
def Condition.Met (op : Operator) (right : Int) (input : SignalSet) : Condition → Prop
  | value v => op.test (v.resolve input) right
  | any => ∃ name ∈ input.present, op.test (input.get name) right
  | all => ∀ name ∈ input.present, op.test (input.get name) right

theorem Condition.holds_iff (op : Operator) (right : Int) (input : SignalSet) (c : Condition) :
    c.holds op right input ↔ c.Met op right input := by
  cases c with
  | value v => exact Iff.rfl
  | any =>
    rw [holds, List.any_eq_true]
    exact SignalSet.exists_mem_toList_iff (p := fun v => op.test v right)
  | all =>
    rw [holds, List.all_eq_true]
    exact SignalSet.forall_mem_toList_iff (p := fun v => op.test v right)

instance (op : Operator) (right : Int) (input : SignalSet) (c : Condition) :
    Decidable (c.Met op right input) :=
  decidable_of_iff _ (c.holds_iff op right input)

namespace Combinator

/-- The value that a combinator writes for a signal. -/
def writes (input : SignalSet) (name : String) : Combinator → Int
  | constant values => values.get name
  | toggle values active | pulse values active => if active then values.get name else 0
  | arithmetic op left right output =>
    if name = output then op.apply (left.resolve input) (right.resolve input) else 0
  | arithmeticSum op right output =>
    if name = output then
      saturate (∑ k ∈ input.present, op.apply (input.get k) (right.resolve input))
    else 0
  | arithmeticEach op right =>
    if name ∈ input.present then op.apply (input.get name) (right.resolve input) else 0
  | decider op left right (.signal output) asOne =>
    if left.Met op (right.resolve input) input ∧ name = output then
      if asOne then 1 else input.get name
    else 0
  | decider op left right .all asOne =>
    if left.Met op (right.resolve input) input ∧ name ∈ input.present then
      if asOne then 1 else input.get name
    else 0
  | deciderSum op right output asOne =>
    if name = output then
      saturate (∑ k ∈ input.present with op.test (input.get k) (right.resolve input),
        if asOne then 1 else input.get k)
    else 0
  | deciderEach op right asOne =>
    if name ∈ input.present ∧ op.test (input.get name) (right.resolve input) then
      if asOne then 1 else input.get name
    else 0
  | display _ _ | label _ _ => 0

/-- Changing the present signals one by one. -/
private theorem get_filterMap_eq (h : input.Canonical) (f : Int → Option Int) (name : String) :
    (input.filterMap f).get name =
      if name ∈ input.present then ((f (input.get name)).elim 0 saturate) else 0 := by
  rw [SignalSet.get_filterMap]
  simp only [SignalSet.mem_present_iff h, SignalSet.get]
  cases hv : input.values.get? name with
  | none => simp
  | some v => simp [(h name v hv).1]

/-- What is passed on from the input, or counted as 1, does not saturate. -/
private theorem saturate_passed (h : input.Canonical) (asOne : Bool) (name : String) :
    saturate (if asOne then 1 else input.get name) = if asOne then 1 else input.get name := by
  cases asOne with
  | false => exact saturate_eq_self (SignalSet.inRange_get h name)
  | true => rfl

private theorem get_output_decider (h : input.Canonical) (op : Operator) (left : Condition)
    (right : Value) (target : Target) (asOne : Bool) (name : String) :
    ((decider op left right target asOne).output input).get name =
      (decider op left right target asOne).writes input name := by
  cases target with
  | signal output =>
    simp only [Combinator.output, writes, ← Condition.holds_iff]
    split
    · next hmet =>
      rw [SignalSet.get_single, saturate_passed h]
      simp only [hmet, true_and]
      split
      · next heq => rw [heq]
      · rfl
    · next hmet => rw [if_neg fun hand => hmet hand.1, SignalSet.get_empty]
  | all =>
    simp only [Combinator.output, writes, ← Condition.holds_iff]
    split
    · next hmet =>
      simp only [hmet, true_and]
      cases asOne with
      | true => rw [if_pos rfl, get_filterMap_eq h]; rfl
      | false =>
        -- The whole input is passed on, in which absent signals have the value 0.
        simp only [Bool.false_eq_true, if_false, SignalSet.mem_present_iff h]
        split
        · rfl
        · next hzero => exact not_not.mp hzero
    · next hmet => rw [if_neg fun hand => hmet hand.1, SignalSet.get_empty]

/-- The output of a combinator has the values that it writes. -/
theorem get_output (h : input.Canonical) (c : Combinator) (name : String) :
    (c.output input).get name = c.writes input name := by
  cases c with
  | constant values => rfl
  | toggle values active => cases active <;> rfl
  | pulse values active => cases active <;> rfl
  | arithmetic op left right output =>
    rw [Combinator.output, SignalSet.get_single, writes, saturate_eq_self (op.inRange_apply _ _)]
  | arithmeticSum op right output =>
    rw [Combinator.output, SignalSet.get_single, writes,
      SignalSet.total_map input fun v => op.apply v (right.resolve input)]
  | arithmeticEach op right =>
    rw [Combinator.output, get_filterMap_eq h, writes, Option.elim_some,
      saturate_eq_self (op.inRange_apply _ _)]
  | decider op left right target asOne => exact get_output_decider h op left right target asOne name
  | deciderSum op right output asOne =>
    rw [Combinator.output, SignalSet.get_single, writes,
      SignalSet.total_filter_map input (fun v => op.test v (right.resolve input))
        fun v => if asOne then 1 else v]
  | deciderEach op right asOne =>
    rw [Combinator.output, get_filterMap_eq h, writes]
    by_cases hpresent : name ∈ input.present
    · rw [if_pos hpresent]
      simp only [hpresent, true_and]
      split
      · exact saturate_passed h asOne name
      · rfl
    · rw [if_neg hpresent, if_neg fun hand => hpresent hand.1]
  | display signal value => rfl
  | label text level => rfl

/-- The signals that a combinator has been given to write. -/
def stored? : Combinator → Option SignalSet
  | constant values | toggle values _ | pulse values _ => some values
  | _ => none

/-- The output is canonical, provided that the signals to be written are. -/
theorem canonical_output (h : input.Canonical) {c : Combinator}
    (hstored : ∀ values, c.stored? = some values → values.Canonical) :
    (c.output input).Canonical := by
  have hsingle : ∀ name v, (SignalSet.single name v).Canonical :=
    fun name v => SignalSet.canonical_set SignalSet.canonical_empty name v
  cases c with
  | constant values => exact hstored values rfl
  | toggle values active =>
    cases active
    · exact SignalSet.canonical_empty
    · exact hstored values rfl
  | pulse values active =>
    cases active
    · exact SignalSet.canonical_empty
    · exact hstored values rfl
  | arithmetic op left right output => exact hsingle _ _
  | arithmeticSum op right output => exact hsingle _ _
  | arithmeticEach op right => exact SignalSet.canonical_filterMap _ _
  | decider op left right target asOne =>
    rw [Combinator.output.eq_def]
    simp only
    split
    · cases target with
      | signal name => exact hsingle _ _
      | all =>
        simp only
        split
        · exact SignalSet.canonical_filterMap _ _
        · exact h
    · exact SignalSet.canonical_empty
  | deciderSum op right output asOne => exact hsingle _ _
  | deciderEach op right asOne => exact SignalSet.canonical_filterMap _ _
  | display signal value => exact SignalSet.canonical_empty
  | label text level => exact SignalSet.canonical_empty

end Combinator

end CombinatorNet
