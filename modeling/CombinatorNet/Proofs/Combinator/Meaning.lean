import CombinatorNet.Proofs.Combinator.Pointwise

/-!
# The meaning of expressions

An expression says by itself which value each signal gets from the signals that are read: its
operator is applied to two values, to each present signal, or to their sum, or it decides whether
signals are passed on. Here this is stated on the names in the expression, without combinators. A
combinator exists for just the expressions whose names fit together, and it writes what the
expression means.

## Main definitions

* `PlainName`, `Operand.Plain` — names and operands without a meaning of their own
* `Expr.Accepted` — the expressions whose names fit together
* `Expr.meaning` — the value that an expression gives to a signal

## Main results

* `Combinator.ofArithmetic_eq_ok_iff`, `Combinator.ofComparison_eq_ok_iff`,
  `Combinator.ofExpr_eq_ok_iff` — the combinator of an expression, by its names
* `Combinator.ofExpr_correct` — there is a combinator for just the accepted expressions, and its
  output has the values that the expression means
-/

namespace CombinatorNet

/-! ### Names and operands -/

/-- The names of any one of the present signals. -/
def anyNames : List String := ["any", "anything"]

/-- The names of all the present signals. -/
def allNames : List String := ["all", "everything"]

/-- A name that stands for a signal, and not for the present ones. -/
def PlainName (name : String) : Prop := name ∉ "each" :: (anyNames ++ allNames)

instance (name : String) : Decidable (PlainName name) :=
  inferInstanceAs (Decidable (name ∉ _))

theorem PlainName.ne_each {name : String} (h : PlainName name) : name ≠ "each" :=
  (List.ne_and_not_mem_of_not_mem_cons h).1

theorem PlainName.notMem_allNames {name : String} (h : PlainName name) : name ∉ allNames :=
  fun hmem => h (List.mem_cons_of_mem _ (List.mem_append_right _ hmem))

namespace Reserved

variable {name : String}

theorem ofName?_eq_each_iff : ofName? name = some each ↔ name = "each" := by
  rw [ofName?]
  split_ifs <;> simp_all

theorem ofName?_eq_any_iff : ofName? name = some any ↔ name ∈ anyNames := by
  rw [ofName?]
  split_ifs <;> simp_all [anyNames]

theorem ofName?_eq_all_iff : ofName? name = some all ↔ name ∈ allNames := by
  rw [ofName?]
  split_ifs with heach hany <;> simp_all [allNames]
  rcases hany with rfl | rfl <;> decide

theorem ofName?_eq_none_iff : ofName? name = none ↔ PlainName name := by
  rw [ofName?, PlainName, anyNames, allNames]
  split_ifs with heach hany <;> simp_all
  rcases hany with rfl | rfl <;> decide

end Reserved

theorem isReserved_eq_false_iff {name : String} : isReserved name = false ↔ PlainName name := by
  rw [isReserved, Option.isSome_eq_false_iff, Option.isNone_iff_eq_none,
    Reserved.ofName?_eq_none_iff]

namespace Operand

/-- An operand that is a signal or a number. -/
def Plain : Operand → Prop
  | signal name => PlainName name
  | literal _ => True

instance (o : Operand) : Decidable o.Plain :=
  match o with
  | signal name => inferInstanceAs (Decidable (PlainName name))
  | literal _ => isTrue trivial

theorem Plain.ne_each {o : Operand} (h : o.Plain) : o ≠ signal "each" := by
  rintro rfl
  exact PlainName.ne_each h rfl

/-- The operand is the name of any one of the present signals. -/
def IsAny (o : Operand) : Prop := ∃ name ∈ anyNames, o = signal name

/-- The operand is the name of all the present signals. -/
def IsAll (o : Operand) : Prop := ∃ name ∈ allNames, o = signal name

instance (o : Operand) : Decidable o.IsAny := inferInstanceAs (Decidable (∃ name ∈ _, _))

instance (o : Operand) : Decidable o.IsAll := inferInstanceAs (Decidable (∃ name ∈ _, _))

/-- What an operand is worth: the value of its signal, or the signal value nearest to its number. -/
def value (input : SignalSet) : Operand → Int
  | signal name => input.get name
  | literal v => saturate v

end Operand

theorem Value.resolve_ofOperand (input : SignalSet) (o : Operand) :
    (Value.ofOperand o).resolve input = o.value input := by
  cases o <;> rfl

namespace Combinator

variable {o : Operand}

theorem reserved?_eq_each_iff : reserved? o = some .each ↔ o = .signal "each" := by
  cases o <;> simp [reserved?, Reserved.ofName?_eq_each_iff]

theorem reserved?_eq_any_iff : reserved? o = some .any ↔ o.IsAny := by
  cases o <;> simp [reserved?, Reserved.ofName?_eq_any_iff, Operand.IsAny]

theorem reserved?_eq_all_iff : reserved? o = some .all ↔ o.IsAll := by
  cases o <;> simp [reserved?, Reserved.ofName?_eq_all_iff, Operand.IsAll]

theorem reserved?_eq_none_iff : reserved? o = none ↔ o.Plain := by
  cases o <;> simp [reserved?, Reserved.ofName?_eq_none_iff, Operand.Plain]

end Combinator

/-! ### Expressions -/

namespace Expr

/-- The names in an expression fit together. -/
inductive Accepted (e : Expr) : Prop
  /-- The operator is used on each present signal, whose results are kept apart or added up. -/
  | each (right : e.right.Plain) (left : e.left = .signal "each")
      (output : e.output = "each" ∨ PlainName e.output)
  /-- An arithmetic operator is used on two values. -/
  | arithmetic (right : e.right.Plain) (op : e.op.isComparison = false) (left : e.left.Plain)
      (output : PlainName e.output)
  /-- One comparison decides what is passed on. -/
  | comparison (right : e.right.Plain) (op : e.op.isComparison = true)
      (left : e.left.Plain ∨ e.left.IsAny ∨ e.left.IsAll)
      (output : PlainName e.output ∨ e.output ∈ allNames)

/-- A value that is passed on, or 1 in its place. -/
def passed (e : Expr) (v : Int) : Int := if e.asOne then 1 else v

/-- The result for one present signal: that of an arithmetic operator, or the value if it passes the
comparison. A signal with the result 0 is absent. -/
def result (e : Expr) (input : SignalSet) (v : Int) : Int :=
  if e.op.isComparison then
    if e.op.test v (e.right.value input) then e.passed v else 0
  else e.op.apply v (e.right.value input)

/-- The condition of a comparison: some present signal passes, all of them do, or a value does. -/
def Holds (e : Expr) (input : SignalSet) : Prop :=
  if e.left.IsAny then ∃ k ∈ input.present, e.op.test (input.get k) (e.right.value input)
  else if e.left.IsAll then ∀ k ∈ input.present, e.op.test (input.get k) (e.right.value input)
  else e.op.test (e.left.value input) (e.right.value input)

instance (e : Expr) (input : SignalSet) : Decidable (e.Holds input) := by
  unfold Holds
  infer_instance

/-- The value that an expression gives to a signal, given the signals that are read. -/
def meaning (e : Expr) (input : SignalSet) (name : String) : Int :=
  if e.left = .signal "each" then
    if e.output = "each" then
      if name ∈ input.present then e.result input (input.get name) else 0
    else if name = e.output then saturate (∑ k ∈ input.present, e.result input (input.get k))
    else 0
  else if e.op.isComparison then
    if e.Holds input then
      if e.output ∈ allNames then
        if name ∈ input.present then e.passed (input.get name) else 0
      else if name = e.output then e.passed (input.get name)
      else 0
    else 0
  else if name = e.output then e.op.apply (e.left.value input) (e.right.value input)
  else 0

/-- The left side of the decider of an expression. -/
def condition (e : Expr) : Condition :=
  if e.left.IsAny then .any
  else if e.left.IsAll then .all
  else .value (.ofOperand e.left)

/-- What the decider of an expression writes. -/
def target (e : Expr) : Target := if e.output ∈ allNames then .all else .signal e.output

variable {e : Expr} {input : SignalSet}

/-- The condition of the decider is the one of the expression. -/
theorem holds_iff_met : e.Holds input ↔
    e.condition.Met e.op ((Value.ofOperand e.right).resolve input) input := by
  rw [Holds, condition, Value.resolve_ofOperand]
  split_ifs
  · exact Iff.rfl
  · exact Iff.rfl
  · rw [Condition.Met, Value.resolve_ofOperand]

end Expr

/-! ### The combinator of an expression -/

namespace Combinator

variable {e : Expr} {c : Combinator}

/-- The arithmetic combinators of expressions: for each present signal, for their sum, or for two
values. -/
theorem ofArithmetic_eq_ok_iff : ofArithmetic e = .ok c ↔
    (e.left = .signal "each" ∧ e.output = "each" ∧
      c = arithmeticEach e.op (.ofOperand e.right)) ∨
    (e.left = .signal "each" ∧ PlainName e.output ∧
      c = arithmeticSum e.op (.ofOperand e.right) e.output) ∨
    (e.left.Plain ∧ PlainName e.output ∧
      c = arithmetic e.op (.ofOperand e.left) (.ofOperand e.right) e.output) := by
  simp only [← reserved?_eq_each_iff, ← reserved?_eq_none_iff, ← Reserved.ofName?_eq_each_iff,
    ← Reserved.ofName?_eq_none_iff, ofArithmetic]
  cases reserved? e.left with
  | none => cases Reserved.ofName? e.output with
    | none => simp [eq_comm]
    | some r => cases r <;> simp
  | some l => cases l <;> cases Reserved.ofName? e.output with
    | none => simp [eq_comm]
    | some r => cases r <;> simp [eq_comm]

/-- The deciders of expressions: for each present signal, for their sum, or with one condition. -/
theorem ofComparison_eq_ok_iff : ofComparison e = .ok c ↔
    (e.left = .signal "each" ∧ e.output = "each" ∧
      c = deciderEach e.op (.ofOperand e.right) e.asOne) ∨
    (e.left = .signal "each" ∧ PlainName e.output ∧
      c = deciderSum e.op (.ofOperand e.right) e.output e.asOne) ∨
    ((e.left.Plain ∨ e.left.IsAny ∨ e.left.IsAll) ∧ (PlainName e.output ∨ e.output ∈ allNames) ∧
      c = decider e.op e.condition (.ofOperand e.right) e.target e.asOne) := by
  simp only [← reserved?_eq_each_iff, ← reserved?_eq_none_iff, ← reserved?_eq_any_iff,
    ← reserved?_eq_all_iff, ← Reserved.ofName?_eq_each_iff, ← Reserved.ofName?_eq_none_iff,
    ← Reserved.ofName?_eq_all_iff, Expr.condition, Expr.target, ofComparison]
  cases reserved? e.left with
  | none => cases Reserved.ofName? e.output with
    | none => simp [eq_comm]
    | some r => cases r <;> simp [eq_comm]
  | some l => cases l <;> cases Reserved.ofName? e.output with
    | none => simp [eq_comm]
    | some r => cases r <;> simp [eq_comm]

/-- An expression has a combinator if its right operand is plain and its operator accepts the other
names. -/
theorem ofExpr_eq_ok_iff : ofExpr e = .ok c ↔ e.right.Plain ∧
    if e.op.isComparison then ofComparison e = .ok c else ofArithmetic e = .ok c := by
  rw [ofExpr]
  cases hright : e.right with
  | signal name =>
    simp only [Operand.Plain, ← isReserved_eq_false_iff]
    cases isReserved name with
    | false => simp [apply_ite (· = Except.ok c)]
    | true => simp
  | literal v => simp [Operand.Plain, apply_ite (· = Except.ok c)]

/-- Only accepted expressions have a combinator. -/
theorem accepted_of_ofExpr (h : ofExpr e = .ok c) : e.Accepted := by
  obtain ⟨hright, h⟩ := ofExpr_eq_ok_iff.mp h
  split at h
  · next hop =>
    rcases ofComparison_eq_ok_iff.mp h with
      ⟨hleft, houtput, -⟩ | ⟨hleft, houtput, -⟩ | ⟨hleft, houtput, -⟩
    · exact .each hright hleft (.inl houtput)
    · exact .each hright hleft (.inr houtput)
    · exact .comparison hright hop hleft houtput
  · next hop =>
    rcases ofArithmetic_eq_ok_iff.mp h with
      ⟨hleft, houtput, -⟩ | ⟨hleft, houtput, -⟩ | ⟨hleft, houtput, -⟩
    · exact .each hright hleft (.inl houtput)
    · exact .each hright hleft (.inr houtput)
    · exact .arithmetic hright (by simpa using hop) hleft houtput

/-- Each accepted expression has a combinator. -/
theorem exists_ofExpr (h : e.Accepted) : ∃ c, ofExpr e = .ok c := by
  simp only [ofExpr_eq_ok_iff]
  cases h with
  | each hright hleft houtput =>
    cases hop : e.op.isComparison with
    | true =>
      rcases houtput with houtput | houtput
      · exact ⟨_, hright, ofComparison_eq_ok_iff.mpr (.inl ⟨hleft, houtput, rfl⟩)⟩
      · exact ⟨_, hright, ofComparison_eq_ok_iff.mpr (.inr (.inl ⟨hleft, houtput, rfl⟩))⟩
    | false =>
      rcases houtput with houtput | houtput
      · exact ⟨_, hright, ofArithmetic_eq_ok_iff.mpr (.inl ⟨hleft, houtput, rfl⟩)⟩
      · exact ⟨_, hright, ofArithmetic_eq_ok_iff.mpr (.inr (.inl ⟨hleft, houtput, rfl⟩))⟩
  | arithmetic hright hop hleft houtput =>
    rw [hop]
    exact ⟨_, hright, ofArithmetic_eq_ok_iff.mpr (.inr (.inr ⟨hleft, houtput, rfl⟩))⟩
  | comparison hright hop hleft houtput =>
    rw [hop]
    exact ⟨_, hright, ofComparison_eq_ok_iff.mpr (.inr (.inr ⟨hleft, houtput, rfl⟩))⟩

/-! ### What the combinator writes -/

/-- What the arithmetic combinator of an expression writes. -/
theorem writes_of_ofArithmetic (hop : e.op.isComparison = false) (h : ofArithmetic e = .ok c)
    (input : SignalSet) (name : String) : c.writes input name = e.meaning input name := by
  have hresult (v : Int) : e.result input v = e.op.apply v (e.right.value input) := by
    simp [Expr.result, hop]
  rcases ofArithmetic_eq_ok_iff.mp h with
    ⟨hleft, houtput, rfl⟩ | ⟨hleft, houtput, rfl⟩ | ⟨hleft, houtput, rfl⟩
  · rw [Expr.meaning, if_pos hleft, if_pos houtput, hresult, writes, Value.resolve_ofOperand]
  · rw [Expr.meaning, if_pos hleft, if_neg houtput.ne_each, writes]
    simp only [hresult, Value.resolve_ofOperand]
  · rw [Expr.meaning, if_neg hleft.ne_each, hop, if_neg Bool.false_ne_true, writes,
      Value.resolve_ofOperand, Value.resolve_ofOperand]

/-- What a decider with one condition writes. -/
theorem writes_decider (e : Expr) (input : SignalSet) (name : String) :
    (decider e.op e.condition (.ofOperand e.right) e.target e.asOne).writes input name =
      if e.Holds input then
        if e.output ∈ allNames then
          if name ∈ input.present then e.passed (input.get name) else 0
        else if name = e.output then e.passed (input.get name)
        else 0
      else 0 := by
  simp only [Expr.target, Expr.holds_iff_met, Expr.passed]
  by_cases hall : e.output ∈ allNames
  · simp only [if_pos hall, writes, ite_and]
  · simp only [if_neg hall, writes, ite_and]

/-- What the decider of an expression writes. -/
theorem writes_of_ofComparison (hop : e.op.isComparison = true) (h : ofComparison e = .ok c)
    (input : SignalSet) (name : String) : c.writes input name = e.meaning input name := by
  have hresult (v : Int) : e.result input v =
      if e.op.test v (e.right.value input) then e.passed v else 0 := by
    rw [Expr.result, if_pos hop]
  rcases ofComparison_eq_ok_iff.mp h with
    ⟨hleft, houtput, rfl⟩ | ⟨hleft, houtput, rfl⟩ | ⟨hleft, houtput, rfl⟩
  · rw [Expr.meaning, if_pos hleft, if_pos houtput, hresult, writes, Value.resolve_ofOperand,
      ite_and, Expr.passed]
  · rw [Expr.meaning, if_pos hleft, if_neg houtput.ne_each, writes]
    simp only [hresult, Value.resolve_ofOperand, Finset.sum_filter, Expr.passed]
  · have hleft : e.left ≠ .signal "each" := by
      rcases hleft with h | ⟨k, hk, h⟩ | ⟨k, hk, h⟩
      · exact h.ne_each
      · rw [h]; rintro ⟨⟩; revert hk; decide
      · rw [h]; rintro ⟨⟩; revert hk; decide
    rw [Expr.meaning, if_neg hleft, if_pos hop, writes_decider]

/-- The combinator of an expression has stored no signals. -/
theorem stored?_of_ofExpr (h : ofExpr e = .ok c) : c.stored? = none := by
  obtain ⟨-, h⟩ := ofExpr_eq_ok_iff.mp h
  split at h
  · rcases ofComparison_eq_ok_iff.mp h with ⟨-, -, rfl⟩ | ⟨-, -, rfl⟩ | ⟨-, -, rfl⟩ <;> rfl
  · rcases ofArithmetic_eq_ok_iff.mp h with ⟨-, -, rfl⟩ | ⟨-, -, rfl⟩ | ⟨-, -, rfl⟩ <;> rfl

/-- An expression has a combinator exactly if its names fit together, and then the output of the
combinator is the canonical set with the values that the expression means. -/
theorem ofExpr_correct (e : Expr) :
    ((∃ c, ofExpr e = .ok c) ↔ e.Accepted) ∧
    ∀ c, ofExpr e = .ok c → ∀ input : SignalSet, input.Canonical →
      (c.output input).Canonical ∧ ∀ name, (c.output input).get name = e.meaning input name := by
  refine ⟨⟨fun ⟨c, h⟩ => accepted_of_ofExpr h, exists_ofExpr⟩, ?_⟩
  intro c h input hinput
  refine ⟨canonical_output hinput ?_, ?_⟩
  · intro values hvalues
    rw [stored?_of_ofExpr h] at hvalues
    cases hvalues
  · intro name
    rw [get_output hinput]
    obtain ⟨-, h⟩ := ofExpr_eq_ok_iff.mp h
    cases hop : e.op.isComparison with
    | true =>
      rw [hop, if_pos rfl] at h
      exact writes_of_ofComparison hop h input name
    | false =>
      rw [hop, if_neg Bool.false_ne_true] at h
      exact writes_of_ofArithmetic hop h input name

/-- The expression that counts the signals above the signal `x`. -/
def countAbove : Expr := ⟨.signal "each", .gt, .signal "x", "n", true, .nowhere⟩

/-- Of the signals 2, 5 and 3, where `x` is the first one, two are above it. -/
theorem ofExpr_correct_countAbove : ∃ c, ofExpr countAbove = .ok c ∧ countAbove.Accepted ∧
    (c.output (.collect [("x", 2), ("y", 5), ("z", 3)])).get "n" = 2 ∧
    countAbove.meaning (.collect [("x", 2), ("y", 5), ("z", 3)]) "n" = 2 := by
  have hcount : ofExpr countAbove = .ok (deciderSum .gt (.signal "x") "n" true) := by decide
  obtain ⟨haccepted, hvalues⟩ := ofExpr_correct countAbove
  have hmeaning := (hvalues _ hcount (.collect [("x", 2), ("y", 5), ("z", 3)])
    (SignalSet.canonical_collect _)).2 "n"
  have htwo : ((deciderSum .gt (.signal "x") "n" true).output
      (.collect [("x", 2), ("y", 5), ("z", 3)])).get "n" = 2 := by decide +kernel
  exact ⟨_, hcount, haccepted.mp ⟨_, hcount⟩, htwo, hmeaning ▸ htwo⟩

end Combinator

end CombinatorNet
