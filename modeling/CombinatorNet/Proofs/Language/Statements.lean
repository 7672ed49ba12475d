import CombinatorNet.Proofs.Language.Recognizer

/-!
# The readers of statements

Each reader of a part of a statement takes words of its phrase in the grammar, and makes what they
stand for. A statement that starts with a name shows its form with the second word, so the keywords
are names everywhere else.

## Main definitions

* `OperandFormFrom`, `RequestFormFrom` — operands and statements, given the first word
* `NamedForm.Form` — what a statement that starts with a name looks like, given its form

## Main results

* `reads_readWires`, `reads_readExpr`, `reads_readConstant`, `reads_readWired`,
  `reads_readInstance` — the readers of phrases read these phrases
* `requestForm_iff_of_name` — the first two words tell the form of a statement
* `reads_readStatement` — the reader of statements reads statements
-/

namespace CombinatorNet

open Reader

/-! ### Numbers and operands -/

/-- Digits, given whether a minus sign stands before them. -/
def DigitsForm (negative : Bool) (ws : List Word) (v : Int) : Prop :=
  ∃ digits, ws = [.digits digits] ∧
    v = (if negative then -digitsValue digits else digitsValue digits) ∧ FitsWord v

theorem reads_readDigits (negative : Bool) (start : Span) :
    Reads (readDigits negative start) id (DigitsForm negative) := by
  refine ((reads_expect .integer _).bind
    (T := fun w ws v => FitsWord (if negative then -digitsValue w.2 else digitsValue w.2) ∧
      ws = [] ∧ v = if negative then -digitsValue w.2 else digitsValue w.2)
    fun t => (reads_pure _).guard (reads_fail _ _)).congr fun ws v => ?_
  constructor
  · rintro ⟨_, _, ⟨_, digits⟩, rfl, ⟨rfl, -, rfl⟩, hfits, rfl, rfl⟩
    exact ⟨digits, rfl, rfl, hfits⟩
  · rintro ⟨digits, rfl, rfl, hfits⟩
    exact ⟨_, [], .digits digits, rfl, ⟨rfl, Word.plain_digits digits, rfl⟩, hfits, rfl, rfl⟩

theorem reads_readNumber : Reads readNumber id NumberForm := by
  refine (ReadsBefore.look (T := fun w ws v =>
      (w.1 = .operator ∧ w.2 = "-") ∧
        (∃ w' u, ws = w' :: u ∧ Word.Plain w' ∧ DigitsForm true u v) ∨
      ¬(w.1 = .operator ∧ w.2 = "-") ∧ DigitsForm false ws v)
    (fun t => (ReadsBefore.advance_bind (T := fun _ => DigitsForm true)
      fun _ => reads_readDigits true t.span).ite (reads_readDigits false t.span)) ?_).congr
    fun ws v => ?_
  · rintro w v (⟨-, w', u, hnil, -⟩ | ⟨-, digits, hnil, -⟩) <;> cases hnil
  · constructor
    · rintro ⟨⟨kind, text⟩, u, rfl, ⟨⟨rfl, rfl⟩, w', u', heq, -, digits, rfl, rfl, hfits⟩ |
        ⟨-, digits, heq, rfl, hfits⟩⟩
      · cases heq
        exact .negative hfits
      · rw [heq]
        exact .positive hfits
    · rintro (⟨hfits⟩ | ⟨hfits⟩)
      · exact ⟨_, _, rfl, .inr ⟨nofun, _, rfl, rfl, hfits⟩⟩
      · have hplain := Word.plain_ofOperator .sub
        exact ⟨_, _, rfl, .inl ⟨⟨rfl, rfl⟩, _, _, rfl, hplain, _, rfl, rfl, hfits⟩⟩

/-- An operand, given the first of its words. -/
def OperandFormFrom (w : Word) (ws : List Word) (o : Operand) : Prop :=
  match w.1 with
  | .identifier => ∃ w' u, ws = w' :: u ∧ Word.Plain w' ∧ u = [] ∧ o = .signal w'.2
  | .integer | .operator => ∃ v, NumberForm ws v ∧ .literal v = o
  | _ => False

theorem reads_readOperand : Reads readOperand id OperandForm := by
  have hnumber := reads_readNumber.andReturn (o := id) (g := Operand.literal) fun _ => rfl
  refine (ReadsBefore.look (T := OperandFormFrom) (fun t => ?_) ?_).congr fun ws o => ?_
  · obtain ⟨kind, text, span⟩ := t
    cases kind with
    | identifier =>
      exact ReadsBefore.advance_bind (T := fun w' u o => u = [] ∧ o = Operand.signal w'.2)
        fun t => reads_pure (Operand.signal t.text)
    | integer => exact hnumber
    | operator => exact hnumber
    | _ => exact reads_unexpected _
  · rintro ⟨kind, text⟩ o h
    have hno : ∀ v, ¬ NumberForm [] v := fun v h => by cases h
    cases kind with
    | identifier =>
      obtain ⟨_, _, hnil, -⟩ := h
      cases hnil
    | integer | operator =>
      obtain ⟨v, hnumber, -⟩ := h
      exact hno v hnumber
    | _ => exact h
  · constructor
    · rintro ⟨⟨kind, text⟩, u, rfl, h⟩
      cases kind with
      | identifier =>
        obtain ⟨_, _, heq, -, rfl, rfl⟩ := h
        cases heq
        exact .signal text
      | integer | operator =>
        obtain ⟨v, hnumber, rfl⟩ := h
        exact .literal hnumber
      | _ => exact h.elim
    · rintro (⟨name⟩ | ⟨⟨hfits⟩ | ⟨hfits⟩⟩)
      · exact ⟨_, _, rfl, _, _, rfl, Word.plain_name name, rfl, rfl⟩
      · exact ⟨_, _, rfl, _, .positive hfits, rfl⟩
      · exact ⟨_, _, rfl, _, .negative hfits, rfl⟩

/-! ### Wires -/

theorem reads_readNextWire (seen : List String) :
    Reads (readNextWire seen) id fun ws s => ∃ w, ws = [w, .name s] ∧ Word.Plain w := by
  refine (ReadsBefore.advance_bind (T := fun _ ws s => ws = [.name s])
    fun _ => reads_name _).congr fun ws s => ?_
  constructor
  · rintro ⟨w, _, rfl, hplain, rfl⟩
    exact ⟨w, rfl, hplain⟩
  · rintro ⟨w, rfl, hplain⟩
    exact ⟨w, _, rfl, hplain, rfl⟩

/-- The wires behind the first one, each with a comma before it. -/
theorem repeatForm_wires_iff {ws : List Word} {wires : List String} :
    RepeatForm (fun u s => u = [.sign .comma, .name s]) ws wires ↔
      ws = wires.flatMap fun w => [.sign .comma, .name w] := by
  constructor
  · intro h
    induction h with
    | nil => rfl
    | cons h _ ih => rw [h, ih, List.flatMap_cons]
  · rintro rfl
    induction wires with
    | nil => exact .nil
    | cons w wires ih => exact .cons rfl ih

theorem reads_moreWires (first : String) :
    ReadsBefore (fun kind => decide (kind = .comma) = false)
      (many (fun kind => kind = .comma) readNextWire shrinks_readNextWire [first]) id
      fun ws wires => ∃ more, wires = first :: more ∧
        ws = more.flatMap fun w => [.sign .comma, .name w] := by
  rw [← List.map_id_fun]
  refine (reads_many (Q := fun _ _ => True) (I := fun ws s => ws = [.sign .comma, .name s])
    (fun seen => (reads_readNextWire seen).congr fun ws b => (and_iff_left trivial).symm)
    ?_ ?_ [first]).congr fun ws wires => ?_
  · rintro b ⟨w, hnil, -⟩
    cases hnil
  · intro ws s
    constructor
    · rintro rfl
      exact ⟨⟨_, rfl, Word.plain_sign .comma⟩, _, _, rfl, rfl⟩
    · rintro ⟨⟨w, rfl, hplain⟩, w', u, heq, hcomma⟩
      cases heq
      obtain hkind : w.1 = .comma := of_decide_eq_true hcomma
      rw [hplain.sign (by rw [hkind]; rfl), hkind]
  · constructor
    · rintro ⟨more, rfl, hform, -⟩
      exact ⟨more, rfl, repeatForm_wires_iff.mp hform⟩
    · rintro ⟨more, rfl, h⟩
      exact ⟨more, rfl, repeatForm_wires_iff.mpr h, allFresh_true _ _⟩

/-- What stands behind the opening parenthesis and the first wire. -/
def WiresTailForm (first : String) (ws : List Word) (wires : List String) : Prop :=
  ∃ more, wires = first :: more ∧
    ws = more.flatMap (fun w => [.sign .comma, .name w]) ++ [.sign .closeParen]

theorem reads_wiresTail (first : String) : Reads (do
      let wires ← many (fun kind => kind = .comma) readNextWire shrinks_readNextWire [first]
      let _ ← expect .closeParen "')'"
      return wires) id (WiresTailForm first) := by
  refine ((reads_moreWires first).andThen
    (fun wires => .sign_bind rfl fun _ => reads_pure wires) ?_).congr fun ws wires => ?_
  · rintro _ _ _ ⟨_, rfl, -⟩
    exact ⟨_, _, rfl, rfl⟩
  · constructor
    · rintro ⟨_, _, _, rfl, ⟨more, rfl, rfl⟩, _, rfl, rfl, rfl⟩
      exact ⟨more, rfl, rfl⟩
    · rintro ⟨more, rfl, rfl⟩
      exact ⟨_, _, _, rfl, ⟨more, rfl, rfl⟩, _, rfl, rfl, rfl⟩

theorem reads_readWires : Reads readWires id WiresForm := by
  have hone : Reads (do return [← name "a wire name or '('"]) id fun ws wires =>
      ∃ s, ws = [.name s] ∧ [s] = wires :=
    (reads_name _).andReturn (r := fun s => [s]) fun _ => rfl
  refine (ReadsBefore.look (T := fun w ws wires =>
      (w.1 = .openParen ∧ ∃ w' u, ws = w' :: u ∧ Word.Plain w' ∧
        ∃ first v, u = .name first :: v ∧ WiresTailForm first v wires) ∨
      (¬ w.1 = .openParen ∧ ∃ s, ws = [.name s] ∧ [s] = wires))
    (fun t => .ite (.advance_bind
      (T := fun _ u wires => ∃ first v, u = .name first :: v ∧ WiresTailForm first v wires)
      fun _ => .name_bind reads_wiresTail) hone) ?_).congr fun ws wires => ?_
  · rintro w wires (⟨-, _, _, hnil, -⟩ | ⟨-, _, hnil, -⟩) <;> cases hnil
  · constructor
    · rintro ⟨w, u, rfl, ⟨hkind, _, _, heq, hplain, first, _, rfl, more, rfl, rfl⟩ |
        ⟨-, s, heq, rfl⟩⟩
      · cases heq
        rw [hplain.sign (by rw [hkind]; rfl), hkind]
        exact .several first more
      · rw [heq]
        exact .one s
    · rintro (⟨wire⟩ | ⟨wire, more⟩)
      · exact ⟨_, _, rfl, .inr ⟨nofun, wire, rfl, rfl⟩⟩
      · exact ⟨_, _, rfl, .inl ⟨rfl, _, _, rfl, Word.plain_sign .openParen, wire, _, rfl,
          more, rfl, rfl⟩⟩

/-! ### Expressions -/

/-- What an expression does with its result is not followed by a number. -/
theorem reads_readMode (op : Operator) :
    ReadsBefore (· ≠ .integer) (readMode op) id (ModeForm op) := by
  have hone := ReadsBefore.advance_bind (G := fun _ => True) (o := id)
    (f := fun number => do
      if number.text = "1" then
        let _ ← expectKeyword "as"
        return true
      else fail .deciderNumber number.span)
    (T := fun w v asOne => w.2 = "1" ∧ ∃ u, v = .name "as" :: u ∧ u = [] ∧ asOne = true)
    fun t => .guard (.keyword_bind fun _ => reads_pure true) (reads_fail _ _)
  have hthen := ReadsBefore.keyword_bind (w := "then") fun _ =>
    hone.optional (k := .integer) (a := false) (by rintro b ⟨_, _, hnil, -⟩; cases hnil)
  have has : Reads (do let _ ← expectKeyword "as"; return false) id fun ws asOne =>
      ∃ v, ws = .name "as" :: v ∧ v = [] ∧ asOne = false :=
    .keyword_bind fun _ => reads_pure false
  refine (hthen.ite has.before).congr fun ws asOne => ?_
  constructor
  · rintro (⟨hop, _, rfl, ⟨⟨w, _, rfl, -, hone, _, rfl, rfl, rfl⟩, _, _, heq, hkind⟩ |
      ⟨rfl, rfl⟩⟩ | ⟨hop, _, rfl, rfl, rfl⟩)
    · cases heq
      obtain rfl : w = .digits "1" := Prod.ext hkind hone
      exact .one hop
    · exact .comparison hop
    · exact .arithmetic (Bool.eq_false_iff.mpr hop)
  · rintro (hop | hop | hop)
    · exact .inr ⟨Bool.eq_false_iff.mp hop, _, rfl, rfl, rfl⟩
    · exact .inl ⟨hop, _, rfl, .inr ⟨rfl, rfl⟩⟩
    · exact .inl ⟨hop, _, rfl, .inl ⟨⟨_, _, rfl, Word.plain_digits "1", rfl, _, rfl, rfl, rfl⟩,
        _, _, rfl, rfl⟩⟩

theorem reads_readOperator : Reads readOperator id fun ws op => ws = [.ofOperator op] := by
  refine (ReadsBefore.look (T := fun w ws op => (w.1 = .operator ∨ w.1 = .equals) ∧
      ∃ w' u, ws = w' :: u ∧ Word.Plain w' ∧ u = [] ∧ Operator.ofSymbol? w.2 = some op)
    (fun t => .guard (.advance_bind
      (T := fun _ u op => u = [] ∧ Operator.ofSymbol? t.text = some op) fun _ => ?_)
      (reads_unexpected _)) ?_).congr fun ws op => ?_
  · cases Operator.ofSymbol? t.text with
    | none => exact (reads_fail _ _).congr fun ws op => ⟨False.elim, fun h => by cases h.2⟩
    | some op =>
      refine (reads_pure op).congr fun ws op' => and_congr_right fun _ => ?_
      exact ⟨fun h => congrArg some h.symm, fun h => (Option.some.inj h).symm⟩
  · rintro w op ⟨-, _, _, hnil, -⟩
    cases hnil
  · constructor
    · rintro ⟨⟨kind, text⟩, u, rfl, hkind, _, _, heq, hplain, rfl, hsymbol⟩
      cases heq
      have htext : op.symbol = text := Operator.symbol_of_ofSymbol? hsymbol
      obtain rfl | rfl := hkind
      · -- The symbol `=` is not of this kind.
        have hne : op ≠ .eq := by
          rintro rfl
          exact hplain.operator rfl htext.symm
        rw [Word.ofOperator, if_neg hne, htext]
      · obtain rfl : text = "=" := congrArg Prod.snd (hplain.sign rfl)
        obtain rfl : Operator.eq = op := Option.some.inj hsymbol
        rfl
    · rintro rfl
      refine ⟨_, _, rfl, ?_, _, _, rfl, Word.plain_ofOperator op, rfl, ?_⟩
      · cases op <;> first | exact .inl rfl | exact .inr rfl
      · cases op <;> rfl

/-- The span of an expression has nothing to do with its words. -/
theorem reads_readExpr : Reads readExpr Expr.unplaced ExprForm := by
  have hreturn : ∀ (left : Operand) (op : Operator) (right : Operand) (asOne : Bool)
      (output : String) (span : Span), Reads
        (return { left, op, right, output, asOne, span } : Reader Expr) Expr.unplaced
        fun ws e => ws = [] ∧ e = ⟨left, op, right, output, asOne, .nowhere⟩ :=
    fun left op right asOne output span => reads_pure _
  refine (ReadsBefore.skip reads_current fun t => reads_readOperand.andThen fun left =>
    reads_readOperator.andThen fun op => reads_readOperand.andThen fun right =>
      (reads_readMode op).andThen (fun asOne => .name_bind fun output =>
        .skip (reads_spanFrom _) (hreturn left op right asOne output)) ?_).congr fun ws e => ?_
  · rintro _ _ _ ⟨s, _, rfl, -⟩
    exact ⟨_, _, rfl, nofun⟩
  · constructor
    · rintro ⟨u, _, left, rfl, hleft, _, _, op, rfl, rfl, v, _, right, rfl, hright, m, _, asOne,
        rfl, hmode, output, _, rfl, rfl, rfl⟩
      exact .mk hleft hright hmode output
    · rintro ⟨hleft, hright, hmode, output⟩
      exact ⟨_, _, _, rfl, hleft, _, _, _, rfl, rfl, _, _, _, rfl, hright, _, _, _, rfl, hmode, _,
        _, rfl, rfl, rfl⟩

/-! ### Kinds of statements -/

theorem reads_readValue (seen : List (String × Int)) : Reads (readValue seen) id ValueForm := by
  have hvalue : ∀ signal : String, Reads (do
      let _ ← expect .colon "':'"
      let value ← readNumber
      return (signal, value)) id fun ws e =>
        ∃ u, ws = .sign .colon :: u ∧ ∃ v, NumberForm u v ∧ (signal, v) = e := fun signal =>
    .sign_bind rfl fun _ => reads_readNumber.andReturn (r := fun v => (signal, v)) fun _ => rfl
  refine (ReadsBefore.identifier_bind (T := fun signal ws e => ¬ isReserved signal = true ∧
      ∃ u, ws = .sign .colon :: u ∧ ∃ v, NumberForm u v ∧ (signal, v) = e)
    fun t => (reads_fail _ _).unless (hvalue t.text)).congr fun ws e => ?_
  constructor
  · rintro ⟨signal, _, rfl, hreserved, _, rfl, v, hnumber, rfl⟩
    exact .mk (Bool.eq_false_iff.mpr hreserved) hnumber
  · rintro ⟨hreserved, hnumber⟩
    exact ⟨_, _, rfl, Bool.eq_false_iff.mp hreserved, _, rfl, _, hnumber, rfl⟩

theorem reads_values : ReadsBefore (· = .closeBrace)
    (commaList .closeBrace readValue shrinks_readValue []) id (ListForm ValueForm) := by
  rw [← List.map_id_fun]
  refine reads_list nofun reads_readValue fun ws e h => ?_
  cases h
  exact ⟨_, _, rfl, nofun⟩

theorem reads_readConstant (drive : Drive) :
    Reads (readConstant drive) Request.unplaced (ConstantForm drive) := by
  refine (ReadsBefore.sign_bind rfl fun _ => reads_values.andThen
    (fun values => .sign_bind rfl fun _ => .sign_bind rfl fun _ => reads_readWires.andReturn
      (r := Request.constant drive values) fun _ => rfl) ?_).congr fun ws r => ?_
  · rintro _ _ _ ⟨_, rfl, -⟩
    exact ⟨_, _, rfl, rfl⟩
  · constructor
    · rintro ⟨_, rfl, u, _, values, rfl, hvalues, _, rfl, _, rfl, outputs, houtputs, rfl⟩
      exact .mk hvalues houtputs
    · rintro ⟨hvalues, houtputs⟩
      exact ⟨_, rfl, _, _, _, rfl, hvalues, _, rfl, _, rfl, _, houtputs, rfl⟩

theorem peeks_atDisplay :
    Peeks atDisplay fun w kind => decide (w = .name "display" ∧ kind = .identifier) where
  stays := by
    intro feed mid c h
    obtain ⟨t, _, hcurrent, h⟩ := bind_eq_ok.mp h
    cases hcurrent
    split at h
    · obtain ⟨kind, _, hpeek, h⟩ := bind_eq_ok.mp h
      cases h
      exact peeks_peekKind.stays hpeek
    · cases h
      rfl
  tells := by
    intro feed t t' ahead h
    obtain rfl : feed.current = t := Except.ok.inj (List.cons.inj h).1
    refine bind_eq_ok.mpr ⟨feed.current, feed, rfl, ?_⟩
    by_cases hword : feed.current.word = .name "display"
    · rw [if_pos (Token.isKeyword_iff.mpr hword)]
      simp only [hword, true_and]
      exact bind_eq_ok.mpr ⟨t'.kind, feed, peeks_peekKind.tells h, rfl⟩
    · rw [if_neg (mt Token.isKeyword_iff.mp hword)]
      simp only [hword, false_and, decide_false]
      rfl

theorem reads_readWired : Reads readWired Request.unplaced WiredForm := by
  have hdisplay : ∀ inputs, Reads (do
      let _ ← advance
      return Request.display inputs (← name "a signal name")) Request.unplaced fun ws r =>
        ∃ w u, ws = w :: u ∧ Word.Plain w ∧ ∃ s, u = [.name s] ∧ Request.display inputs s = r :=
    fun inputs => .advance_bind
      (T := fun _ u r => ∃ s, u = [.name s] ∧ Request.display inputs s = r)
      fun _ => (reads_name _).andReturn fun _ => rfl
  have hbinary : ∀ inputs, Reads (do
      let expr ← readExpr
      let _ ← expect .arrow "'->'"
      let outputs ← readWires
      return Request.binary inputs expr outputs) Request.unplaced fun ws r =>
        ∃ u v expr, ws = u ++ v ∧ ExprForm u expr ∧ ∃ w, v = .sign .arrow :: w ∧
          ∃ outputs, WiresForm w outputs ∧ Request.binary inputs expr outputs = r :=
    fun inputs => reads_readExpr.bind (T := fun expr v r => ∃ w, v = .sign .arrow :: w ∧
        ∃ outputs, WiresForm w outputs ∧ Request.binary inputs expr outputs = r)
      fun expr => .sign_bind rfl fun _ => reads_readWires.andReturn fun _ => rfl
  refine ReadsBefore.congr (reads_readWires.andThen fun inputs => .sign_bind rfl fun _ =>
    .peek peeks_atDisplay (fun b => .ite (hdisplay inputs) (hbinary inputs)) ?_) fun ws r => ?_
  · rintro b _ r (⟨-, _, _, rfl, -, _, rfl, -⟩ | ⟨-, _, _, expr, rfl, hexpr, -⟩)
    · exact Nat.le_refl 2
    · obtain ⟨w, w', u, rfl, -⟩ := hexpr.second_ne_identifier
      simp
  · constructor
    · rintro ⟨u, _, inputs, rfl, hinputs, _, rfl, w, w', _, heq,
        ⟨htell, _, _, rfl, -, s, rfl, rfl⟩ |
        ⟨-, v, _, expr, rfl, hexpr, x, rfl, outputs, houtputs, rfl⟩⟩
      · cases heq
        obtain ⟨rfl, -⟩ := of_decide_eq_true htell
        exact .display hinputs s
      · exact .binary hinputs hexpr houtputs
    · rintro (⟨hinputs, hexpr, houtputs⟩ | ⟨hinputs, signal⟩)
      · obtain ⟨w, w', u, rfl, hne⟩ := hexpr.second_ne_identifier
        refine ⟨_, _, _, rfl, hinputs, _, rfl, w, w', _, rfl, .inr ⟨?_, _, _, _, rfl, hexpr, _, rfl,
          _, houtputs, rfl⟩⟩
        exact fun htell => hne (of_decide_eq_true htell).2
      · exact ⟨_, _, _, rfl, hinputs, _, rfl, _, _, _, rfl, .inl ⟨rfl, _, _, rfl,
          Word.plain_name "display", signal, rfl, rfl⟩⟩

theorem reads_readBinding (seen : List Binding) :
    Reads (readBinding seen) Binding.unplaced BindingForm := by
  have hreturn : ∀ formal actual : Token, Reads
      (return ⟨formal.text, actual.text, formal.span.upTo actual.span⟩ : Reader Binding)
      Binding.unplaced fun ws b => ws = [] ∧ b = ⟨formal.text, actual.text, .nowhere⟩ :=
    fun formal actual => reads_pure _
  refine ReadsBefore.congr (.identifier_bind
    (T := fun formal ws b => ∃ v, ws = .sign .equals :: v ∧ ∃ actual u, v = .name actual :: u ∧
      u = [] ∧ b = ⟨formal, actual, .nowhere⟩)
    fun formal => .sign_bind rfl fun _ => .identifier_bind
      (T := fun actual u b => u = [] ∧ b = Binding.mk formal.text actual .nowhere)
      fun actual => hreturn formal actual) fun ws b => ?_
  constructor
  · rintro ⟨formal, _, rfl, _, rfl, actual, _, rfl, rfl, rfl⟩
    exact .mk formal actual
  · rintro ⟨formal, actual⟩
    exact ⟨formal, _, rfl, _, rfl, actual, _, rfl, rfl, rfl⟩

theorem reads_readInstance : Reads readInstance Request.unplaced InstanceForm := by
  have hbindings : ReadsBefore (· = .closeParen)
      (commaList .closeParen readBinding shrinks_readBinding []) (List.map Binding.unplaced)
      (ListForm BindingForm) := by
    refine reads_list nofun reads_readBinding fun ws b h => ?_
    cases h
    exact ⟨_, _, rfl, nofun⟩
  refine ReadsBefore.congr (.name_bind fun template => .sign_bind rfl fun _ => hbindings.bind
    (T := fun bindings ws r => ∃ v, ws = .sign .closeParen :: v ∧ v = [] ∧
      r = Request.instantiate template bindings)
    (fun bindings => .sign_bind rfl fun _ => reads_pure (Request.instantiate template bindings))
    ?_) fun ws r => ?_
  · rintro _ _ _ ⟨_, rfl, -⟩
    exact ⟨_, _, rfl, rfl⟩
  · constructor
    · rintro ⟨template, _, rfl, _, rfl, u, _, bindings, rfl, hbindings, _, rfl, rfl, rfl⟩
      exact .mk template hbindings
    · rintro ⟨template, hbindings⟩
      exact ⟨_, _, rfl, _, rfl, _, _, _, rfl, hbindings, _, rfl, rfl, rfl⟩

/-- What a statement that begins with a name looks like, given what it is. -/
def NamedForm.Form : NamedForm → List Word → Request → Prop
  | .button drive => fun ws r => ∃ w u, ws = w :: u ∧ Word.Plain w ∧ ConstantForm drive u r
  | .paint color => fun ws r => ∃ w u, ws = w :: u ∧ Word.Plain w ∧
      ∃ wires, WiresForm u wires ∧ Request.paint color wires = r
  | .unit => InstanceForm
  | .wired => WiredForm

theorem reads_readNamed (form : NamedForm) :
    Reads (readNamed form) Request.unplaced form.Form := by
  cases form with
  | button drive =>
    exact .advance_bind (T := fun _ => ConstantForm drive) fun _ => reads_readConstant drive
  | paint color =>
    exact .advance_bind
      (T := fun _ u r => ∃ wires, WiresForm u wires ∧ Request.paint color wires = r)
      fun _ => reads_readWires.andReturn fun _ => rfl
  | unit => exact reads_readInstance
  | wired => exact reads_readWired

/-! ### Statements -/

/-- A statement that begins with a name has at least two words. -/
theorem NamedForm.Form.two_le_length {form : NamedForm} {ws : List Word} {r : Request}
    (h : form.Form ws r) : 2 ≤ ws.length := by
  cases form with
  | button drive =>
    obtain ⟨_, _, rfl, -, hconstant⟩ := h
    obtain ⟨u, rfl⟩ := hconstant.head
    simp
  | paint color =>
    obtain ⟨_, _, rfl, -, wires, hwires, -⟩ := h
    obtain ⟨w, u, rfl, -⟩ := hwires.head
    simp
  | unit =>
    obtain ⟨_, _, rfl⟩ := InstanceForm.head h
    simp
  | wired => obtain ⟨_, _, rfl⟩ | ⟨_, _, rfl⟩ := WiredForm.head h <;> simp

theorem NamedForm.of_arrow (text : String) : NamedForm.of text .arrow = .wired := by
  simp [NamedForm.of]

/-- Only the colors are no templates. -/
theorem NamedForm.of_openParen {text : String} (hred : text ≠ "red") (hgreen : text ≠ "green") :
    NamedForm.of text .openParen = .unit := by
  simp [NamedForm.of, hred, hgreen]

theorem NamedForm.of_color {color : Color} {next : TokenKind}
    (h : next = .identifier ∨ next = .openParen) :
    NamedForm.of color.text next = .paint color := by
  obtain rfl | rfl := h <;> cases color <;> decide

/-- The first two words of a statement that starts with a name tell its form. -/
theorem requestForm_iff_of_name {text : String} {w : Word} {u : List Word} {r : Request} :
    RequestForm (.name text :: w :: u) r ↔
      (NamedForm.of text w.1).Form (.name text :: w :: u) r := by
  constructor
  · intro h
    generalize hws : (.name text :: w :: u : List Word) = ws at h
    cases h with
    | @constant drive v r h =>
      obtain ⟨v, rfl⟩ := h.head
      cases drive <;> cases hws <;> exact ⟨_, _, rfl, Word.plain_name _, h⟩
    | wired h =>
      obtain ⟨_, _, rfl⟩ | ⟨_, _, rfl⟩ := h.head <;> cases hws
      have hof := NamedForm.of_arrow text
      exact hof.symm ▸ h
    | unit hred hgreen h =>
      cases h
      cases hws
      have hof := NamedForm.of_openParen hred hgreen
      exact hof.symm ▸ .mk _ ‹_›
    | paint color h =>
      obtain ⟨w, v, rfl, hw⟩ := h.head
      cases hws
      rw [NamedForm.of_color hw]
      exact ⟨_, _, rfl, Word.plain_name _, _, h, rfl⟩
    | label level text => cases hws
  · intro h
    rw [NamedForm.of] at h
    -- The forms in the order in which the reader tries them.
    split at h
    · next hword =>
      obtain ⟨_, _, heq, -, hconstant⟩ := h
      cases heq
      rw [hword.1]
      have hform := RequestForm.constant hconstant
      exact hform
    · split at h
      · next hword =>
        obtain ⟨_, _, heq, -, hconstant⟩ := h
        cases heq
        rw [hword.1]
        have hform := RequestForm.constant hconstant
        exact hform
      · split at h
        · next hword =>
          obtain ⟨_, _, heq, -, wires, hwires, rfl⟩ := h
          cases heq
          rw [hword.1]
          exact .paint .red hwires
        · split at h
          · next hword =>
            obtain ⟨_, _, heq, -, wires, hwires, rfl⟩ := h
            cases heq
            rw [hword.1]
            exact .paint .green hwires
          · split at h
            · next hred hgreen hparen =>
              have hinstance : InstanceForm (.name text :: w :: u) r := h
              generalize hws : (.name text :: w :: u : List Word) = ws at hinstance
              cases hinstance
              cases hws
              exact .unit (fun heq => hred ⟨heq, .inr rfl⟩) (fun heq => hgreen ⟨heq, .inr rfl⟩) h
            · exact .wired h

/-- A statement, given the first of its words. -/
def RequestFormFrom (w : Word) (ws : List Word) (r : Request) : Prop :=
  match w.1 with
  | .heading level =>
    ∃ w' u, ws = w' :: u ∧ Word.Plain w' ∧ u = [] ∧ r = .label w.2 (min level 3)
  | .openBrace => ConstantForm .constant ws r
  | .openParen => WiredForm ws r
  | .identifier => ∃ w' w'' u, ws = w' :: w'' :: u ∧ (NamedForm.of w.2 w''.1).Form ws r
  | _ => False

theorem reads_readRequest : Reads readRequest Request.unplaced RequestForm := by
  refine ReadsBefore.congr (.look (T := RequestFormFrom) (fun t => ?_) ?_) fun ws r => ?_
  · obtain ⟨kind, text, span⟩ := t
    cases kind with
    | heading level =>
      exact ReadsBefore.advance_bind
        (T := fun _ u r => u = [] ∧ r = Request.label text (min level 3))
        fun _ => reads_pure (Request.label text (min level 3))
    | openBrace => exact reads_readConstant .constant
    | openParen => exact reads_readWired
    | identifier =>
      exact ReadsBefore.peek (T := fun kind => (NamedForm.of text kind).Form) peeks_peekKind
        (fun kind => reads_readNamed (.of text kind)) fun kind ws r h => h.two_le_length
    | _ => exact reads_unexpected _
  · rintro ⟨kind, text⟩ r h
    cases kind with
    | heading level =>
      obtain ⟨_, _, hnil, -⟩ := h
      cases hnil
    | openBrace => cases h
    | openParen => obtain ⟨_, _, hnil⟩ | ⟨_, _, hnil⟩ := WiredForm.head h <;> cases hnil
    | identifier =>
      obtain ⟨_, _, _, hnil, -⟩ := h
      cases hnil
    | _ => exact h
  · constructor
    · rintro ⟨⟨kind, text⟩, u, rfl, h⟩
      cases kind with
      | heading level =>
        obtain ⟨_, _, heq, -, rfl, rfl⟩ := h
        cases heq
        exact .label level text
      | openBrace =>
        have hconstant : ConstantForm .constant ((.openBrace, text) :: u) r := h
        have hform := RequestForm.constant hconstant
        exact hform
      | openParen => exact .wired h
      | identifier =>
        obtain ⟨_, w, u, heq, h⟩ := h
        cases heq
        exact requestForm_iff_of_name.mpr h
      | _ => exact h.elim
    · intro h
      obtain ⟨u, rfl, hform⟩ | ⟨u, rfl, hform⟩ | ⟨level, text, rfl, rfl⟩ | ⟨text, w, u, rfl⟩ :=
        h.head
      · exact ⟨_, _, rfl, hform⟩
      · exact ⟨_, _, rfl, hform⟩
      · exact ⟨_, _, rfl, _, _, rfl, ⟨nofun, nofun⟩, rfl, rfl⟩
      · exact ⟨_, _, rfl, _, w, u, rfl, requestForm_iff_of_name.mp h⟩

theorem reads_readStatement : Reads readStatement Statement.unplaced StatementForm := by
  have hreturn : ∀ (request : Request) (span : Span), Reads
      (return ⟨request, span⟩ : Reader Statement) Statement.unplaced
      fun ws s => ws = [] ∧ s = ⟨request.unplaced, .nowhere⟩ := fun request span => reads_pure _
  refine ReadsBefore.congr (.skip reads_current fun t => reads_readRequest.bind
    (T := fun r ws s => ws = [] ∧ s = Statement.mk r .nowhere)
    fun request => .skip (reads_spanFrom _) (hreturn request)) fun ws s => ?_
  constructor
  · rintro ⟨u, _, r, rfl, h, rfl, rfl⟩
    rw [List.append_nil]
    exact .mk h
  · rintro ⟨h⟩
    exact ⟨ws, [], _, (List.append_nil ws).symm, h, rfl, rfl⟩

end CombinatorNet
