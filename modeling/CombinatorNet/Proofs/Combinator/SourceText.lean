import CombinatorNet.Proofs.Combinator.Meaning
import CombinatorNet.Proofs.Language.Phrases
import CombinatorNet.Proofs.Network.Nodes
import CombinatorNet.Proofs.Signal.Literals

/-!
# The text of a combinator as source text

The text of a combinator is that of the expression, the values, the signal or the heading it was
made from, except that reserved names have their first spelling, numbers are saturated, and values
are added up. On a line with wires around it, it is parsed to a statement that makes the same
combinator again.

## Main definitions

* `Expr.folded` — an expression with the first spelling of reserved names and saturated numbers
* `Combinator.HasLine` — combinators, and the lines with their texts

## Main results

* `Combinator.ofExpr_folded`, `Combinator.text_of_ofExpr` — a folded expression has the same
  combinator, and the combinator has its text
* `SignalSet.collect_toList` — a canonical set is collected from its own entries
* `Combinator.exists_parse_of_hasLine` — the text of a combinator is parsed, and the same combinator
  is built from it
-/

namespace CombinatorNet

/-! ### Folded expressions -/

/-- The first spelling of a name, if it is reserved, and else the name itself. -/
def firstSpelling (name : String) : String :=
  match Reserved.ofName? name with
  | some .any => "any"
  | some .all => "all"
  | _ => name

theorem ofName?_firstSpelling (name : String) :
    Reserved.ofName? (firstSpelling name) = Reserved.ofName? name := by
  rw [firstSpelling]
  split
  · next h => rw [h]; decide
  · next h => rw [h]; decide
  · rfl

theorem firstSpelling_eq_each {name : String} : firstSpelling name = "each" ↔ name = "each" := by
  rw [← Reserved.ofName?_eq_each_iff, ofName?_firstSpelling, Reserved.ofName?_eq_each_iff]

theorem plainName_firstSpelling {name : String} :
    PlainName (firstSpelling name) ↔ PlainName name := by
  rw [← Reserved.ofName?_eq_none_iff, ofName?_firstSpelling, Reserved.ofName?_eq_none_iff]

theorem firstSpelling_mem_allNames {name : String} :
    firstSpelling name ∈ allNames ↔ name ∈ allNames := by
  rw [← Reserved.ofName?_eq_all_iff, ofName?_firstSpelling, Reserved.ofName?_eq_all_iff]

theorem PlainName.firstSpelling_eq {name : String} (h : PlainName name) :
    firstSpelling name = name := by
  rw [firstSpelling, Reserved.ofName?_eq_none_iff.mpr h]

theorem firstSpelling_of_mem_allNames {name : String} (h : name ∈ allNames) :
    firstSpelling name = "all" := by
  rw [firstSpelling, Reserved.ofName?_eq_all_iff.mpr h]

theorem IsIdentifier.firstSpelling {name : String} (h : IsIdentifier name) :
    IsIdentifier (firstSpelling name) := by
  rw [CombinatorNet.firstSpelling]
  split
  · decide +kernel
  · decide +kernel
  · exact h

namespace Operand

/-- A name in its first spelling, or a saturated number. -/
def folded : Operand → Operand
  | signal name => signal (firstSpelling name)
  | literal v => literal (saturate v)

variable {o : Operand}

theorem wellFormed_folded (h : ∀ n ∈ o.names, IsIdentifier n) : o.folded.WellFormed := by
  cases o with
  | signal name => exact (h name (List.mem_singleton_self name)).firstSpelling
  | literal v =>
    obtain ⟨hlow, hhigh⟩ := inRange_saturate v
    rw [signalMax] at hlow hhigh
    exact ⟨by omega, by omega⟩

theorem reserved?_folded (o : Operand) :
    Combinator.reserved? o.folded = Combinator.reserved? o := by
  cases o with
  | signal name => exact ofName?_firstSpelling name
  | literal v => rfl

theorem folded_eq_each : o.folded = signal "each" ↔ o = signal "each" := by
  rw [← Combinator.reserved?_eq_each_iff, reserved?_folded, Combinator.reserved?_eq_each_iff]

theorem plain_folded : o.folded.Plain ↔ o.Plain := by
  rw [← Combinator.reserved?_eq_none_iff, reserved?_folded, Combinator.reserved?_eq_none_iff]

theorem isAny_folded : o.folded.IsAny ↔ o.IsAny := by
  rw [← Combinator.reserved?_eq_any_iff, reserved?_folded, Combinator.reserved?_eq_any_iff]

theorem isAll_folded : o.folded.IsAll ↔ o.IsAll := by
  rw [← Combinator.reserved?_eq_all_iff, reserved?_folded, Combinator.reserved?_eq_all_iff]

/-- A plain operand is read as the same value when it is folded. -/
theorem Plain.ofOperand_folded (h : o.Plain) : Value.ofOperand o.folded = Value.ofOperand o := by
  cases o with
  | signal name => rw [folded, PlainName.firstSpelling_eq h]
  | literal v => rw [folded, Value.ofOperand, Value.ofOperand, saturate_saturate]

/-- The value of a plain operand is written as the folded operand. -/
theorem Plain.text_ofOperand (h : o.Plain) : (Value.ofOperand o).text = o.folded.text := by
  cases o with
  | signal name => rw [folded, PlainName.firstSpelling_eq h]; rfl
  | literal v => rfl

end Operand

namespace Expr

/-- An expression with the first spelling of reserved names and with saturated numbers. Only in a
comparison it matters whether values are replaced by 1. -/
def folded (e : Expr) : Expr :=
  { e with
    left := e.left.folded
    right := e.right.folded
    output := firstSpelling e.output
    asOne := e.op.isComparison && e.asOne }

variable {e : Expr}

theorem wellFormed_folded (h : ∀ n ∈ e.names, IsIdentifier n) : e.folded.WellFormed := by
  obtain ⟨hoperands, houtput⟩ := List.forall_mem_append.mp h
  obtain ⟨hleft, hright⟩ := List.forall_mem_append.mp hoperands
  exact ⟨Operand.wellFormed_folded hleft, Operand.wellFormed_folded hright,
    (houtput e.output (List.mem_singleton_self _)).firstSpelling,
    fun hone => (Bool.and_eq_true_iff.mp hone).1⟩

theorem condition_folded (h : e.left.Plain ∨ e.left.IsAny ∨ e.left.IsAll) :
    e.folded.condition = e.condition := by
  simp only [condition, folded, Operand.isAny_folded, Operand.isAll_folded]
  split_ifs with hany hall
  · rfl
  · rfl
  · have hplain : e.left.Plain := by tauto
    rw [hplain.ofOperand_folded]

theorem target_folded (h : PlainName e.output ∨ e.output ∈ allNames) :
    e.folded.target = e.target := by
  rcases h with h | h
  · simp only [target, folded, h.firstSpelling_eq]
  · simp only [target, folded, firstSpelling_of_mem_allNames h, if_pos h]
    rfl

end Expr

namespace Combinator

variable {e : Expr} {c : Combinator}

/-- A folded expression has the same combinator. -/
theorem ofExpr_folded (h : ofExpr e = .ok c) : ofExpr e.folded = .ok c := by
  obtain ⟨hright, h⟩ := ofExpr_eq_ok_iff.mp h
  have hvalue : Value.ofOperand e.folded.right = Value.ofOperand e.right := hright.ofOperand_folded
  refine ofExpr_eq_ok_iff.mpr ⟨Operand.plain_folded.mpr hright, ?_⟩
  show if e.op.isComparison then _ else _
  split at h
  · next hop =>
    have hone : e.folded.asOne = e.asOne := by simp [Expr.folded, hop]
    rw [if_pos hop, ofComparison_eq_ok_iff, hone, hvalue]
    rcases ofComparison_eq_ok_iff.mp h with
      ⟨hleft, houtput, rfl⟩ | ⟨hleft, houtput, rfl⟩ | ⟨hleft, houtput, rfl⟩
    · exact .inl ⟨Operand.folded_eq_each.mpr hleft, firstSpelling_eq_each.mpr houtput, rfl⟩
    · refine .inr (.inl ⟨Operand.folded_eq_each.mpr hleft, plainName_firstSpelling.mpr houtput, ?_⟩)
      rw [show e.folded.output = e.output from houtput.firstSpelling_eq]
      rfl
    · refine .inr (.inr ⟨?_, ?_, ?_⟩)
      · exact hleft.imp Operand.plain_folded.mpr
          (Or.imp Operand.isAny_folded.mpr Operand.isAll_folded.mpr)
      · exact houtput.imp plainName_firstSpelling.mpr firstSpelling_mem_allNames.mpr
      · rw [Expr.condition_folded hleft, Expr.target_folded houtput]
        rfl
  · next hop =>
    rw [if_neg hop, ofArithmetic_eq_ok_iff, hvalue]
    rcases ofArithmetic_eq_ok_iff.mp h with
      ⟨hleft, houtput, rfl⟩ | ⟨hleft, houtput, rfl⟩ | ⟨hleft, houtput, rfl⟩
    · exact .inl ⟨Operand.folded_eq_each.mpr hleft, firstSpelling_eq_each.mpr houtput, rfl⟩
    · refine .inr (.inl ⟨Operand.folded_eq_each.mpr hleft, plainName_firstSpelling.mpr houtput, ?_⟩)
      rw [show e.folded.output = e.output from houtput.firstSpelling_eq]
      rfl
    · refine .inr (.inr ⟨Operand.plain_folded.mpr hleft, plainName_firstSpelling.mpr houtput, ?_⟩)
      rw [show Value.ofOperand e.folded.left = _ from hleft.ofOperand_folded,
        show e.folded.output = e.output from houtput.firstSpelling_eq]
      rfl

theorem text_condition (h : e.left.Plain ∨ e.left.IsAny ∨ e.left.IsAll) :
    e.condition.text = e.left.folded.text := by
  rw [Expr.condition]
  split_ifs with hany hall
  · obtain ⟨name, hname, hleft⟩ := hany
    rw [hleft, Operand.folded, firstSpelling, Reserved.ofName?_eq_any_iff.mpr hname]
    rfl
  · obtain ⟨name, hname, hleft⟩ := hall
    rw [hleft, Operand.folded, firstSpelling_of_mem_allNames hname]
    rfl
  · have hplain : e.left.Plain := by tauto
    exact hplain.text_ofOperand

theorem text_target (h : PlainName e.output ∨ e.output ∈ allNames) :
    e.target.text = firstSpelling e.output := by
  rcases h with h | h
  · rw [Expr.target, if_neg h.notMem_allNames, h.firstSpelling_eq]
    rfl
  · rw [Expr.target, if_pos h, firstSpelling_of_mem_allNames h]
    rfl

/-- The combinator of an expression has the text of the folded expression. -/
theorem text_of_ofExpr (h : ofExpr e = .ok c) : c.text = e.folded.text := by
  obtain ⟨hright, h⟩ := ofExpr_eq_ok_iff.mp h
  have hvalue : e.folded.right.text = (Value.ofOperand e.right).text := hright.text_ofOperand.symm
  have heach : (Operand.signal "each").folded.text = "each" := by decide
  have heach' : firstSpelling "each" = "each" := by decide
  have hleft' : e.folded.left = e.left.folded := rfl
  have houtput' : e.folded.output = firstSpelling e.output := rfl
  have hop' : e.folded.op = e.op := rfl
  rw [← String.toList_inj, Expr.toList_text, hvalue, hleft', houtput', hop']
  split at h
  · next hop =>
    have hmode : e.folded.modeText = thenText e.asOne := by simp [Expr.modeText, Expr.folded, hop]
    rw [hmode]
    rcases ofComparison_eq_ok_iff.mp h with
      ⟨hleft, houtput, rfl⟩ | ⟨hleft, houtput, rfl⟩ | ⟨hleft, houtput, rfl⟩
    · rw [hleft, houtput, heach, heach']
      simp [text, toString]
    · rw [hleft, heach, houtput.firstSpelling_eq]
      simp [text, toString]
    · rw [← text_condition hleft, ← text_target houtput]
      simp [text, toString]
  · next hop =>
    have hmode : e.folded.modeText = "as" := by simp [Expr.modeText, Expr.folded, hop]
    rw [hmode]
    rcases ofArithmetic_eq_ok_iff.mp h with
      ⟨hleft, houtput, rfl⟩ | ⟨hleft, houtput, rfl⟩ | ⟨hleft, houtput, rfl⟩
    · rw [hleft, houtput, heach, heach']
      simp [text, toString]
    · rw [hleft, heach, houtput.firstSpelling_eq]
      simp [text, toString]
    · rw [← hleft.text_ofOperand, houtput.firstSpelling_eq]
      simp [text, toString]

end Combinator

/-! ### Constants -/

namespace SignalSet

variable {s : SignalSet}

/-- The entries of a list in ascending order have one literal at most for a signal. -/
theorem literalsOf_eq_toList {es : List (String × Int)}
    (h : es.Pairwise fun a b => a.1 < b.1) (name : String) :
    literalsOf name es = (NameMap.valueIn name es).toList := by
  induction es with
  | nil => rfl
  | cons e es ih =>
    obtain ⟨hlt, hes⟩ := List.pairwise_cons.mp h
    have htail := ih hes
    rw [literalsOf] at htail
    rw [literalsOf, List.filter_cons, NameMap.valueIn]
    by_cases hname : e.1 = name
    · have hnone : NameMap.valueIn name es = none := by
        rw [Option.eq_none_iff_forall_ne_some]
        intro v hv
        have hbehind : e.1 < name := hlt (name, v) ((NameMap.valueIn_eq_some_iff hes).mp hv)
        exact String.lt_irrefl name (hname ▸ hbehind)
      rw [hnone] at htail
      simp [hname, htail]
    · simp [hname, Ne.symm hname, htail]

/-- A canonical set is collected from its own entries. -/
theorem collect_toList (h : s.Canonical) : collect s.toList = s := by
  have hfit : SumsFit s.toList := by
    refine sumsFit_of_small fun e he => ?_
    obtain ⟨-, hlow, hhigh⟩ := h e.1 e.2 (NameMap.mem_toList_iff.mp he)
    rw [signalMax] at hlow hhigh
    omega
  refine ext_get (canonical_collect _) h fun name => ?_
  have hliterals : literalsOf name s.toList = (s.values.get? name).toList :=
    literalsOf_eq_toList s.values.ascending name
  have hvalue := h name
  rw [hfit.get_collect, hliterals, get]
  cases hget : s.values.get? name with
  | none => rfl
  | some v =>
    show saturate (0 + v) = v
    rw [Int.zero_add]
    exact saturate_eq_self (hvalue v hget).2

/-- What is collected from names that can be written is written as the same names with literals. -/
theorem isSignalValue_of_mem_collect {values : List (String × Int)}
    (h : ∀ v ∈ values, IsIdentifier v.1 ∧ isReserved v.1 = false) {e : String × Int}
    (he : e ∈ (collect values).toList) : IsSignalValue e := by
  have hget := NameMap.mem_toList_iff.mp he
  have hpresent : e.1 ∈ (collect values).present := by
    rw [mem_present, hget]
    rfl
  obtain ⟨v, hv, hname⟩ := List.mem_map.mp (mem_of_mem_present_collect hpresent)
  obtain ⟨hidentifier, hreserved⟩ := h v hv
  rw [hname] at hidentifier hreserved
  obtain ⟨-, hlow, hhigh⟩ := canonical_collect values e.1 e.2 hget
  rw [signalMax] at hlow hhigh
  exact ⟨hidentifier, hreserved, by omega, by omega⟩

end SignalSet

/-! ### Lines -/

namespace Combinator

/-- A combinator that is made from what can be written, with its wires and its text on a line. -/
inductive HasLine (source target : String) :
    Combinator → List String → List String → String → Prop
  /-- Expressions stand between two wires. -/
  | expression {e : Expr} {c : Combinator} (hnames : ∀ n ∈ e.names, IsIdentifier n)
      (h : ofExpr e = .ok c) :
      HasLine source target c [source] [target] (source ++ " -> " ++ c.text ++ " -> " ++ target)
  /-- Constants and buttons stand in front of a wire. -/
  | values (drive : Drive) {values : List (String × Int)}
      (hvalues : ∀ v ∈ values, IsIdentifier v.1 ∧ isReserved v.1 = false) :
      HasLine source target (ofValues drive values) [] [target]
        ((ofValues drive values).text ++ " -> " ++ target)
  /-- Displays stand behind a wire. -/
  | display {signal : String} (hsignal : IsIdentifier signal) :
      HasLine source target (ofSignal signal) [source] []
        (source ++ " -> " ++ (ofSignal signal).text)
  /-- Labels have a line of their own. -/
  | label {text : String} (htext : IsLabel text) (level : Nat) :
      HasLine source target (ofHeading text level) [] [] (ofHeading text level).text

end Combinator

/-- The combinator of a statement does not depend on the places in its request. -/
theorem Statement.node?_eq_of_unplaced {s : Statement} {r : Request}
    (h : s.unplaced = ⟨r.unplaced, .nowhere⟩) : s.node? = (Statement.mk r s.span).node? := by
  have hunplaced : ∀ r : Request, (Statement.mk r s.span).node? =
      (Statement.mk r.unplaced s.span).node? := fun r => by cases r <;> rfl
  have hrequest : s.request.unplaced = r.unplaced := congrArg Statement.request h
  have hs := hunplaced s.request
  rw [hrequest, ← hunplaced r] at hs
  exact hs

namespace Combinator

variable {source target : String}

/-- The text of a constant, toggle or pulse is that of the values it has collected. -/
theorem text_ofValues (drive : Drive) (values : List (String × Int)) :
    (ofValues drive values).text =
      drive.keywordText ++ valuesText (SignalSet.collect values).toList := by
  cases drive with
  | constant => exact (String.empty_append).symm
  | toggle => rfl
  | pulse => rfl

/-- A line is made up of the words of a statement that makes the combinator. -/
theorem HasLine.exists_request (hsource : IsIdentifier source) (htarget : IsIdentifier target)
    {c : Combinator} {inputs outputs : List String} {line : String}
    (h : HasLine source target c inputs outputs line) : ∃ r : Request, r.WellFormed ∧
      Spells (line.toList ++ ['\n', '\x7d']) (r.words ++ [.sign .closeBrace]) ∧
      ∀ span, (Statement.mk r span).node? = some ⟨c, inputs, outputs, span, ∅⟩ := by
  have hwires : ∀ {name}, IsIdentifier name → AreWires [name] := fun h =>
    ⟨List.cons_ne_nil _ _, List.forall_mem_singleton.mpr h⟩
  cases h with
  | @expression e c hnames h =>
    have he := Expr.wellFormed_folded hnames
    refine ⟨.binary [source] e.folded [target], ⟨hwires hsource, he, hwires htarget⟩, ?_, ?_⟩
    · rw [text_of_ofExpr h]
      exact spells_binary hsource he htarget
    · intro span
      show Option.map _ (ofExpr e.folded).toOption = _
      rw [ofExpr_folded h]
      rfl
  | @values drive values hvalues =>
    have hcollected : ∀ e ∈ (SignalSet.collect values).toList, IsSignalValue e :=
      fun e he => SignalSet.isSignalValue_of_mem_collect hvalues he
    refine ⟨.constant drive (SignalSet.collect values).toList [target],
      ⟨hcollected, hwires htarget⟩, ?_, ?_⟩
    · rw [text_ofValues]
      exact spells_constant drive hcollected htarget
    · intro span
      have hagain := SignalSet.collect_toList (SignalSet.canonical_collect values)
      cases drive <;> simp only [Statement.node?, ofValues, hagain]
  | @display signal hsignal =>
    exact ⟨.display [source] signal, ⟨hwires hsource, hsignal⟩, spells_display hsource hsignal,
      fun span => rfl⟩
  | @label text htext level =>
    have hlevel : 1 ≤ max 1 (min level 3) ∧ max 1 (min level 3) ≤ 3 := by omega
    have hclamped : max 1 (min (max 1 (min level 3)) 3) = max 1 (min level 3) := by omega
    refine ⟨.label text (max 1 (min level 3)), ⟨hlevel, htext⟩, spells_label htext hlevel, ?_⟩
    intro span
    simp only [Statement.node?, ofHeading, hclamped]

/-- The text of a combinator, with its wires around it on a line, is parsed to one statement, and
what that asks for is to append the same combinator. -/
theorem exists_parse_of_hasLine (hsource : IsIdentifier source) (htarget : IsIdentifier target)
    {c : Combinator} {inputs outputs : List String} {line : String}
    (h : HasLine source target c inputs outputs line) :
    ∃ q t s, Program.parse ("Main() \x7b\n" ++ line ++ "\n\x7d") = .ok q ∧ q.templates = [t] ∧
      t.body = [s] ∧ ∀ n : Network, n.perform s = n.append c inputs outputs s.span := by
  obtain ⟨r, hr, hspells, hnode⟩ := h.exists_request hsource htarget
  obtain ⟨q, t, s, hparse, htemplates, hbody, hs⟩ := Program.exists_parse_line hr hspells
  refine ⟨q, t, s, hparse, htemplates, hbody, fun n => ?_⟩
  exact n.perform_of_node? ((Statement.node?_eq_of_unplaced hs).trans (hnode s.span))

/-- Reserved names in their long spelling, and a number that is out of range. -/
def anyBelow : Expr :=
  ⟨.signal "anything", .lt, .literal (-9000000000), "everything", true, .nowhere⟩

theorem exists_parse_of_hasLine_anyBelow :
    ∃ q t s, Program.parse
        "Main() \x7b\nIN -> any < -2147483647 then 1 as all -> OUT\n\x7d" = .ok q ∧
      q.templates = [t] ∧ t.body = [s] ∧ ∀ n : Network, n.perform s =
        n.append (.decider .lt .any (.constant (-2147483647)) .all true) ["IN"] ["OUT"] s.span := by
  have hline : HasLine "IN" "OUT" (.decider .lt .any (.constant (-2147483647)) .all true)
      ["IN"] ["OUT"] _ :=
    .expression (e := anyBelow) (by decide +kernel) (by decide +kernel)
  have htext : "Main() \x7b\n" ++ ("IN" ++ " -> " ++ Combinator.text
      (.decider .lt .any (.constant (-2147483647)) .all true) ++ " -> " ++ "OUT") ++ "\n\x7d" =
      "Main() \x7b\nIN -> any < -2147483647 then 1 as all -> OUT\n\x7d" := by decide +kernel
  rw [← htext]
  exact exists_parse_of_hasLine (by decide +kernel) (by decide +kernel) hline

end Combinator

end CombinatorNet
