import CombinatorNet.Proofs.Language.Words

/-!
# The grammar

What a program looks like as a sequence of words, by one relation for each phrase of the grammar. A
phrase is related to what it stands for, which has no places in the source text.

## Main definitions

* `ListForm`, `RepeatForm` — items with commas between them, and items one behind the other
* `NumberForm`, `WiresForm`, `OperandForm`, `ModeForm`, `ExprForm` — the parts of statements
* `ConstantForm`, `WiredForm`, `InstanceForm`, `RequestForm`, `StatementForm` — statements
* `TemplateForm`, `ProgramForm` — templates and programs

## Main results

* `ExprForm.second_ne_identifier` — an expression is told from a display by its second word
* `RequestForm.head` — how a statement can start
-/

namespace CombinatorNet

variable {α : Type}

/-- The word of a run of digits. -/
def Word.digits (s : String) : Word := (.integer, s)

/-- The number that digits stand for. -/
def digitsValue (s : String) : Int := Nat.ofDigitChars 10 s.toList 0

/-- The keyword before the values of a constant statement, if there is one. -/
def Drive.keyword : Drive → List Word
  | .constant => []
  | .toggle => [.name "toggle"]
  | .pulse => [.name "pulse"]

/-! ### Lists -/

/-- No item, or items with commas between them, where one comma may follow the last item. -/
inductive ListForm (Item : List Word → α → Prop) : List Word → List α → Prop
  | nil : ListForm Item [] []
  | last {u : List Word} {a : α} (h : Item u a) : ListForm Item u [a]
  | cons {u v : List Word} {a : α} {as : List α} (h : Item u a) (hs : ListForm Item v as) :
      ListForm Item (u ++ .sign .comma :: v) (a :: as)

/-- Items one behind the other. -/
inductive RepeatForm (Item : List Word → α → Prop) : List Word → List α → Prop
  | nil : RepeatForm Item [] []
  | cons {u v : List Word} {a : α} {as : List α} (h : Item u a) (hs : RepeatForm Item v as) :
      RepeatForm Item (u ++ v) (a :: as)

/-! ### Parts of statements -/

/-- Digits with an optional minus sign, which have to fit in a signed 64-bit word. -/
inductive NumberForm : List Word → Int → Prop
  | positive {digits : String} (h : FitsWord (digitsValue digits)) :
      NumberForm [.digits digits] (digitsValue digits)
  | negative {digits : String} (h : FitsWord (-digitsValue digits)) :
      NumberForm [.ofOperator .sub, .digits digits] (-digitsValue digits)

/-- One wire, or at least one between parentheses; no comma follows the last one. -/
inductive WiresForm : List Word → List String → Prop
  | one (wire : String) : WiresForm [.name wire] [wire]
  | several (wire : String) (wires : List String) :
      WiresForm (.sign .openParen :: .name wire ::
        (wires.flatMap (fun w => [.sign .comma, .name w]) ++ [.sign .closeParen])) (wire :: wires)

/-- A signal or a number. -/
inductive OperandForm : List Word → Operand → Prop
  | signal (name : String) : OperandForm [.name name] (.signal name)
  | literal {u : List Word} {v : Int} (h : NumberForm u v) : OperandForm u (.literal v)

/-- What an expression does with its result: arithmetic asks for `as`, and a comparison for `then`
with an optional `1 as`. -/
inductive ModeForm (op : Operator) : List Word → Bool → Prop
  | arithmetic (h : op.isComparison = false) : ModeForm op [.name "as"] false
  | comparison (h : op.isComparison = true) : ModeForm op [.name "then"] false
  | one (h : op.isComparison = true) :
      ModeForm op [.name "then", .digits "1", .name "as"] true

/-- An operator between two operands, and the output. -/
inductive ExprForm : List Word → Expr → Prop
  | mk {u v m : List Word} {left right : Operand} {op : Operator} {asOne : Bool}
      (hleft : OperandForm u left) (hright : OperandForm v right) (hmode : ModeForm op m asOne)
      (output : String) :
      ExprForm (u ++ .ofOperator op :: (v ++ (m ++ [.name output])))
        ⟨left, op, right, output, asOne, .nowhere⟩

/-- The value of one signal, which is not a reserved name. -/
inductive ValueForm : List Word → String × Int → Prop
  | mk {signal : String} {u : List Word} {v : Int} (h : isReserved signal = false)
      (hnumber : NumberForm u v) : ValueForm (.name signal :: .sign .colon :: u) (signal, v)

/-- A parameter with the name that is passed for it. -/
inductive BindingForm : List Word → Binding → Prop
  | mk (formal actual : String) :
      BindingForm [.name formal, .sign .equals, .name actual] ⟨formal, actual, .nowhere⟩

/-- The name of a parameter. -/
inductive ParamForm : List Word → String → Prop
  | mk (param : String) : ParamForm [.name param] param

/-! ### Statements -/

/-- Values for wires, behind the keyword. -/
inductive ConstantForm (drive : Drive) : List Word → Request → Prop
  | mk {u v : List Word} {values : List (String × Int)} {outputs : List String}
      (hvalues : ListForm ValueForm u values) (houtputs : WiresForm v outputs) :
      ConstantForm drive (.sign .openBrace :: (u ++ .sign .closeBrace :: .sign .arrow :: v))
        (.constant drive values outputs)

/-- A statement that begins with its input wires. -/
inductive WiredForm : List Word → Request → Prop
  | binary {u v w : List Word} {inputs outputs : List String} {expr : Expr}
      (hinputs : WiresForm u inputs) (hexpr : ExprForm v expr) (houtputs : WiresForm w outputs) :
      WiredForm (u ++ .sign .arrow :: (v ++ .sign .arrow :: w)) (.binary inputs expr outputs)
  | display {u : List Word} {inputs : List String} (hinputs : WiresForm u inputs)
      (signal : String) :
      WiredForm (u ++ [.sign .arrow, .name "display", .name signal]) (.display inputs signal)

/-- An instance of a template with its bindings. -/
inductive InstanceForm : List Word → Request → Prop
  | mk {u : List Word} {bindings : List Binding} (template : String)
      (hbindings : ListForm BindingForm u bindings) :
      InstanceForm (.name template :: .sign .openParen :: (u ++ [.sign .closeParen]))
        (.instantiate template bindings)

/-- A statement. The colors are keywords before a parenthesis, so no template is instantiated by the
name of one. -/
inductive RequestForm : List Word → Request → Prop
  | constant {drive : Drive} {u : List Word} {r : Request} (h : ConstantForm drive u r) :
      RequestForm (drive.keyword ++ u) r
  | wired {u : List Word} {r : Request} (h : WiredForm u r) : RequestForm u r
  | unit {u : List Word} {template : String} {bindings : List Binding}
      (hred : template ≠ "red") (hgreen : template ≠ "green")
      (h : InstanceForm u (.instantiate template bindings)) :
      RequestForm u (.instantiate template bindings)
  | paint {u : List Word} {wires : List String} (color : Color) (h : WiresForm u wires) :
      RequestForm (.name color.text :: u) (.paint color wires)
  | label (level : Nat) (text : String) :
      RequestForm [(.heading level, text)] (.label text (min level 3))

/-- A statement, which has no place yet. -/
inductive StatementForm : List Word → Statement → Prop
  | mk {u : List Word} {r : Request} (h : RequestForm u r) : StatementForm u ⟨r, .nowhere⟩

/-! ### Programs -/

/-- A name with different parameters, and statements between braces. -/
inductive TemplateForm : List Word → Template → Prop
  | mk {u v : List Word} {params : List String} {body : List Statement} (name : String)
      (hparams : ListForm ParamForm u params) (hnodup : params.Nodup)
      (hbody : RepeatForm StatementForm v body) :
      TemplateForm (.name name :: .sign .openParen :: (u ++ .sign .closeParen ::
        .sign .openBrace :: (v ++ [.sign .closeBrace]))) ⟨name, params, body, .nowhere⟩

/-- At least one template, and no two of the same name, up to the end of input. -/
inductive ProgramForm : List Word → Program → Prop
  | mk {u : List Word} {templates : List Template} (h : RepeatForm TemplateForm u templates)
      (hne : templates ≠ []) (hnodup : (templates.map (·.name)).Nodup) :
      ProgramForm (u ++ [.sign .finish]) ⟨templates⟩

/-! ### The first words of phrases -/

theorem WiresForm.head {ws : List Word} {wires : List String} (h : WiresForm ws wires) :
    ∃ w u, ws = w :: u ∧ (w.1 = .identifier ∨ w.1 = .openParen) := by
  cases h with
  | one wire => exact ⟨_, _, rfl, .inl rfl⟩
  | several wire wires => exact ⟨_, _, rfl, .inr rfl⟩

/-- The second word of an expression is not a name: it is an operator, or the digits of a negative
number. -/
theorem ExprForm.second_ne_identifier {ws : List Word} {e : Expr} (h : ExprForm ws e) :
    ∃ w w' u, ws = w :: w' :: u ∧ w'.1 ≠ .identifier := by
  have hop : ∀ op : Operator, (Word.ofOperator op).1 ≠ .identifier := fun op => by
    cases op <;> decide
  obtain ⟨⟨_⟩ | ⟨_ | _⟩, hright, hmode, output⟩ := h
  · exact ⟨_, _, _, rfl, hop _⟩
  · exact ⟨_, _, _, rfl, hop _⟩
  · exact ⟨_, _, _, rfl, nofun⟩

theorem ConstantForm.head {drive : Drive} {ws : List Word} {r : Request}
    (h : ConstantForm drive ws r) : ∃ u, ws = .sign .openBrace :: u := by
  cases h
  exact ⟨_, rfl⟩

theorem InstanceForm.head {ws : List Word} {r : Request} (h : InstanceForm ws r) :
    ∃ s u, ws = .name s :: .sign .openParen :: u := by
  cases h
  exact ⟨_, _, rfl⟩

/-- A statement with input wires starts with a name before an arrow, or with a parenthesis. -/
theorem WiredForm.head {ws : List Word} {r : Request} (h : WiredForm ws r) :
    (∃ s u, ws = .name s :: .sign .arrow :: u) ∨ ∃ w u, ws = .sign .openParen :: w :: u := by
  obtain ⟨⟨_⟩ | ⟨_, _⟩, hexpr, houtputs⟩ | ⟨⟨_⟩ | ⟨_, _⟩, signal⟩ := h
  · exact .inl ⟨_, _, rfl⟩
  · exact .inr ⟨_, _, rfl⟩
  · exact .inl ⟨_, _, rfl⟩
  · exact .inr ⟨_, _, rfl⟩

/-- How a statement can start. -/
theorem RequestForm.head {ws : List Word} {r : Request} (h : RequestForm ws r) :
    (∃ u, ws = .sign .openBrace :: u ∧ ConstantForm .constant ws r) ∨
      (∃ u, ws = .sign .openParen :: u ∧ WiredForm ws r) ∨
      (∃ level text, ws = [(.heading level, text)] ∧ r = .label text (min level 3)) ∨
      ∃ text w u, ws = .name text :: w :: u := by
  cases h with
  | @constant drive u r h =>
    obtain ⟨v, rfl⟩ := h.head
    cases drive with
    | constant => exact .inl ⟨v, rfl, h⟩
    | toggle | pulse => exact .inr (.inr (.inr ⟨_, _, _, rfl⟩))
  | wired h =>
    obtain ⟨s, u, rfl⟩ | ⟨w, u, rfl⟩ := h.head
    · exact .inr (.inr (.inr ⟨_, _, _, rfl⟩))
    · exact .inr (.inl ⟨_, rfl, h⟩)
  | unit _ _ h =>
    obtain ⟨s, u, rfl⟩ := h.head
    exact .inr (.inr (.inr ⟨_, _, _, rfl⟩))
  | paint color h =>
    obtain ⟨w, u, rfl, -⟩ := h.head
    exact .inr (.inr (.inr ⟨_, _, _, rfl⟩))
  | label level text => exact .inr (.inr (.inl ⟨_, _, rfl, rfl⟩))

/-- A statement does not start with the end of input or the end of a body. -/
theorem StatementForm.head {ws : List Word} {s : Statement} (h : StatementForm ws s) :
    ∃ w u, ws = w :: u ∧ w.1 ≠ .finish ∧ w.1 ≠ .closeBrace := by
  obtain ⟨h⟩ := h
  obtain ⟨_, rfl, -⟩ | ⟨_, rfl, -⟩ | ⟨_, _, rfl, -⟩ | ⟨_, _, _, rfl⟩ := h.head <;>
    exact ⟨_, _, rfl, nofun, nofun⟩

theorem TemplateForm.head {ws : List Word} {t : Template} (h : TemplateForm ws t) :
    ∃ s u, ws = .name s :: u := by
  cases h
  exact ⟨_, _, rfl⟩

end CombinatorNet
