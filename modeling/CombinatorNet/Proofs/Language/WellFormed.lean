import CombinatorNet.Proofs.Language.Grammar

/-!
# Well-formed programs

What a program has to fulfil so that it can be written down. The grammar makes such programs only,
if the words are as the scanner makes them.

## Main definitions

* `AreWires`, `Expr.WellFormed`, `Request.WellFormed`, `Template.WellFormed`,
  `Program.WellFormed` — the conditions on each part of a program
* `Spelled` — words as the scanner makes them, with the end of input among them

## Main results

* `Program.wellFormed_unplaced` — the places in the source text do not count
* `ProgramForm.wellFormed` — programs of the grammar are well formed
-/

namespace CombinatorNet

instance (name : String) : Decidable (IsIdentifier name) :=
  decidable_of_iff (name.toList.head?.any Lexeme.startsName ∧
      name.toList.tail.all Lexeme.inName) <| by
    rw [IsIdentifier]
    cases name.toList <;> simp

instance (text : String) : Decidable (IsLabel text) := inferInstanceAs (Decidable (_ ∧ _))

/-! ### Conditions -/

/-- Names of wires, of which there is at least one. -/
def AreWires (wires : List String) : Prop := wires ≠ [] ∧ ∀ w ∈ wires, IsIdentifier w

instance (wires : List String) : Decidable (AreWires wires) := inferInstanceAs (Decidable (_ ∧ _))

/-- A name, or a literal of 64 bits. -/
def Operand.WellFormed : Operand → Prop
  | signal name => IsIdentifier name
  | literal value => FitsWord value

instance (o : Operand) : Decidable o.WellFormed := by
  cases o <;> unfold Operand.WellFormed <;> infer_instance

/-- The parts of an expression are names and literals, and only a comparison writes 1 instead of
values. -/
structure Expr.WellFormed (e : Expr) : Prop where
  left : e.left.WellFormed
  right : e.right.WellFormed
  output : IsIdentifier e.output
  asOne : e.asOne = true → e.op.isComparison = true

instance (e : Expr) : Decidable e.WellFormed :=
  decidable_of_iff (e.left.WellFormed ∧ e.right.WellFormed ∧ IsIdentifier e.output ∧
      (e.asOne = true → e.op.isComparison = true))
    ⟨fun ⟨hleft, hright, houtput, hone⟩ => ⟨hleft, hright, houtput, hone⟩,
      fun ⟨hleft, hright, houtput, hone⟩ => ⟨hleft, hright, houtput, hone⟩⟩

/-- A binding of names. -/
def Binding.WellFormed (b : Binding) : Prop := IsIdentifier b.formal ∧ IsIdentifier b.actual

instance (b : Binding) : Decidable b.WellFormed := inferInstanceAs (Decidable (_ ∧ _))

/-- A value of 64 bits for a signal whose name is not reserved. -/
def IsSignalValue (value : String × Int) : Prop :=
  IsIdentifier value.1 ∧ isReserved value.1 = false ∧ FitsWord value.2

instance (value : String × Int) : Decidable (IsSignalValue value) :=
  inferInstanceAs (Decidable (_ ∧ _))

/-- The conditions on what a statement asks for. -/
def Request.WellFormed : Request → Prop
  | constant _ values outputs => (∀ value ∈ values, IsSignalValue value) ∧ AreWires outputs
  | binary inputs expr outputs => AreWires inputs ∧ expr.WellFormed ∧ AreWires outputs
  | display inputs signal => AreWires inputs ∧ IsIdentifier signal
  | instantiate name bindings =>
    IsIdentifier name ∧ name ≠ "red" ∧ name ≠ "green" ∧ ∀ b ∈ bindings, b.WellFormed
  | paint _ wires => AreWires wires
  | label text level => (1 ≤ level ∧ level ≤ 3) ∧ IsLabel text

instance (r : Request) : Decidable r.WellFormed := by
  cases r <;> unfold Request.WellFormed <;> infer_instance

/-- A template has names, different parameters, and well-formed statements. -/
structure Template.WellFormed (t : Template) : Prop where
  name : IsIdentifier t.name
  params : ∀ param ∈ t.params, IsIdentifier param
  nodup : t.params.Nodup
  body : ∀ s ∈ t.body, s.request.WellFormed

instance (t : Template) : Decidable t.WellFormed :=
  decidable_of_iff (IsIdentifier t.name ∧ (∀ param ∈ t.params, IsIdentifier param) ∧
      t.params.Nodup ∧ ∀ s ∈ t.body, s.request.WellFormed)
    ⟨fun ⟨hname, hparams, hnodup, hbody⟩ => ⟨hname, hparams, hnodup, hbody⟩,
      fun ⟨hname, hparams, hnodup, hbody⟩ => ⟨hname, hparams, hnodup, hbody⟩⟩

/-- A program has at least one template, and no two of the same name. -/
structure Program.WellFormed (p : Program) : Prop where
  templates : ∀ t ∈ p.templates, t.WellFormed
  ne_nil : p.templates ≠ []
  nodup : (p.templates.map (·.name)).Nodup

instance (p : Program) : Decidable p.WellFormed :=
  decidable_of_iff ((∀ t ∈ p.templates, t.WellFormed) ∧ p.templates ≠ [] ∧
      (p.templates.map (·.name)).Nodup)
    ⟨fun ⟨htemplates, hne, hnodup⟩ => ⟨htemplates, hne, hnodup⟩,
      fun ⟨htemplates, hne, hnodup⟩ => ⟨htemplates, hne, hnodup⟩⟩

/-! ### Places do not count -/

@[simp] theorem Expr.wellFormed_unplaced {e : Expr} : e.unplaced.WellFormed ↔ e.WellFormed :=
  ⟨fun h => ⟨h.left, h.right, h.output, h.asOne⟩, fun h => ⟨h.left, h.right, h.output, h.asOne⟩⟩

@[simp] theorem Request.wellFormed_unplaced {r : Request} :
    r.unplaced.WellFormed ↔ r.WellFormed := by
  cases r with
  | binary inputs expr outputs => simp only [unplaced, WellFormed, Expr.wellFormed_unplaced]
  | instantiate name bindings =>
    simp only [unplaced, WellFormed, List.forall_mem_map, Binding.WellFormed, Binding.unplaced]
  | _ => rfl

@[simp] theorem Template.wellFormed_unplaced {t : Template} :
    t.unplaced.WellFormed ↔ t.WellFormed := by
  have hbody : (∀ s ∈ t.unplaced.body, s.request.WellFormed) ↔
      ∀ s ∈ t.body, s.request.WellFormed := by
    simp only [unplaced, List.forall_mem_map, Statement.unplaced, Request.wellFormed_unplaced]
  exact ⟨fun h => ⟨h.name, h.params, h.nodup, hbody.mp h.body⟩,
    fun h => ⟨h.name, h.params, h.nodup, hbody.mpr h.body⟩⟩

/-- Programs that are the same up to their places are both well formed, or both not. -/
theorem Program.wellFormed_unplaced {p : Program} : p.unplaced.WellFormed ↔ p.WellFormed := by
  have htemplates : (∀ t ∈ p.unplaced.templates, t.WellFormed) ↔
      ∀ t ∈ p.templates, t.WellFormed := by
    simp only [unplaced, List.forall_mem_map, Template.wellFormed_unplaced]
  have hnames : p.unplaced.templates.map (·.name) = p.templates.map (·.name) := by
    simp [unplaced, Template.unplaced]
  have hne : p.unplaced.templates ≠ [] ↔ p.templates ≠ [] := by simp [unplaced]
  constructor
  · intro h
    exact ⟨htemplates.mp h.templates, hne.mp h.ne_nil, hnames ▸ h.nodup⟩
  · intro h
    exact ⟨htemplates.mpr h.templates, hne.mpr h.ne_nil, hnames.symm ▸ h.nodup⟩

/-! ### Programs of the grammar -/

/-- The words of a text are as the scanner makes them, with the end of input among them. -/
def Spelled (ws : List Word) : Prop := ∀ w ∈ ws, w = .sign .finish ∨ w.Lexed

@[simp] theorem spelled_cons {w : Word} {ws : List Word} :
    Spelled (w :: ws) ↔ (w = .sign .finish ∨ w.Lexed) ∧ Spelled ws := List.forall_mem_cons

@[simp] theorem spelled_append {us vs : List Word} :
    Spelled (us ++ vs) ↔ Spelled us ∧ Spelled vs := List.forall_mem_append

/-- A word that is a name is an identifier. -/
@[simp] theorem name_spelled {s : String} :
    (Word.name s = .sign .finish ∨ (Word.name s).Lexed) ↔ IsIdentifier s :=
  or_iff_right nofun

variable {α : Type} {Item : List Word → α → Prop} {P : α → Prop} {ws : List Word}

theorem ListForm.forall {as : List α} (h : ListForm Item ws as) (hws : Spelled ws)
    (hitem : ∀ u a, Item u a → Spelled u → P a) : ∀ a ∈ as, P a := by
  induction h with
  | nil => exact List.forall_mem_nil _
  | last h => exact List.forall_mem_singleton.mpr (hitem _ _ h hws)
  | cons h hs ih =>
    rw [spelled_append, spelled_cons] at hws
    exact List.forall_mem_cons.mpr ⟨hitem _ _ h hws.1, ih hws.2.2⟩

theorem RepeatForm.forall {as : List α} (h : RepeatForm Item ws as) (hws : Spelled ws)
    (hitem : ∀ u a, Item u a → Spelled u → P a) : ∀ a ∈ as, P a := by
  induction h with
  | nil => exact List.forall_mem_nil _
  | cons h hs ih =>
    rw [spelled_append] at hws
    exact List.forall_mem_cons.mpr ⟨hitem _ _ h hws.1, ih hws.2⟩

theorem NumberForm.fitsWord {v : Int} (h : NumberForm ws v) : FitsWord v := by
  cases h with
  | positive h => exact h
  | negative h => exact h

theorem WiresForm.areWires {wires : List String} (h : WiresForm ws wires) (hws : Spelled ws) :
    AreWires wires := by
  cases h with
  | one wire =>
    rw [spelled_cons, name_spelled] at hws
    exact ⟨List.cons_ne_nil _ _, List.forall_mem_singleton.mpr hws.1⟩
  | several wire wires =>
    rw [spelled_cons, spelled_cons, name_spelled, spelled_append] at hws
    refine ⟨List.cons_ne_nil _ _, List.forall_mem_cons.mpr ⟨hws.2.1, fun w hw => ?_⟩⟩
    have hmem : Word.name w ∈ wires.flatMap fun w => [.sign .comma, .name w] :=
      List.mem_flatMap.mpr ⟨w, hw, by simp⟩
    exact name_spelled.mp (hws.2.2.1 _ hmem)

theorem OperandForm.wellFormed {o : Operand} (h : OperandForm ws o) (hws : Spelled ws) :
    o.WellFormed := by
  cases h with
  | signal name => exact name_spelled.mp (spelled_cons.mp hws).1
  | literal h => exact h.fitsWord

theorem ModeForm.isComparison {op : Operator} {asOne : Bool} (h : ModeForm op ws asOne)
    (hone : asOne = true) : op.isComparison = true := by
  cases h with
  | arithmetic h | comparison h => cases hone
  | one h => exact h

theorem ExprForm.wellFormed {e : Expr} (h : ExprForm ws e) (hws : Spelled ws) :
    e.WellFormed := by
  obtain ⟨hleft, hright, hmode, output⟩ := h
  simp only [spelled_append, spelled_cons, name_spelled] at hws
  obtain ⟨hu, -, hv, -, houtput, -⟩ := hws
  exact ⟨hleft.wellFormed hu, hright.wellFormed hv, houtput, hmode.isComparison⟩

theorem ValueForm.isSignalValue {e : String × Int} (h : ValueForm ws e) (hws : Spelled ws) :
    IsSignalValue e := by
  obtain ⟨hreserved, hnumber⟩ := h
  exact ⟨name_spelled.mp (spelled_cons.mp hws).1, hreserved, hnumber.fitsWord⟩

theorem BindingForm.wellFormed {b : Binding} (h : BindingForm ws b) (hws : Spelled ws) :
    b.WellFormed := by
  obtain ⟨formal, actual⟩ := h
  simp only [spelled_cons, name_spelled] at hws
  exact ⟨hws.1, hws.2.2.1⟩

theorem ParamForm.isIdentifier {s : String} (h : ParamForm ws s) (hws : Spelled ws) :
    IsIdentifier s := by
  obtain ⟨s⟩ := h
  exact name_spelled.mp (spelled_cons.mp hws).1

theorem ConstantForm.wellFormed {drive : Drive} {r : Request} (h : ConstantForm drive ws r)
    (hws : Spelled ws) : r.WellFormed := by
  obtain ⟨hvalues, houtputs⟩ := h
  simp only [spelled_cons, spelled_append] at hws
  obtain ⟨-, hu, -, -, hv⟩ := hws
  exact ⟨hvalues.forall hu fun _ _ => ValueForm.isSignalValue, houtputs.areWires hv⟩

theorem WiredForm.wellFormed {r : Request} (h : WiredForm ws r) (hws : Spelled ws) :
    r.WellFormed := by
  cases h with
  | binary hinputs hexpr houtputs =>
    simp only [spelled_cons, spelled_append] at hws
    obtain ⟨hu, -, hv, -, hw⟩ := hws
    exact ⟨hinputs.areWires hu, hexpr.wellFormed hv, houtputs.areWires hw⟩
  | display hinputs signal =>
    simp only [spelled_cons, spelled_append, name_spelled] at hws
    obtain ⟨hu, -, -, hsignal, -⟩ := hws
    exact ⟨hinputs.areWires hu, hsignal⟩

/-- What a statement of the grammar asks for is well formed. -/
theorem RequestForm.wellFormed {r : Request} (h : RequestForm ws r) (hws : Spelled ws) :
    r.WellFormed := by
  cases h with
  | constant h => exact h.wellFormed (spelled_append.mp hws).2
  | wired h => exact h.wellFormed hws
  | unit hred hgreen h =>
    obtain ⟨template, hbindings⟩ := h
    simp only [spelled_cons, spelled_append, name_spelled] at hws
    exact ⟨hws.1, hred, hgreen, hbindings.forall hws.2.2.1 fun _ _ => BindingForm.wellFormed⟩
  | paint color h => exact h.areWires (spelled_cons.mp hws).2
  | label level text =>
    obtain ⟨hfinish | ⟨hpos, -, hlabel⟩, -⟩ := spelled_cons.mp hws
    · cases hfinish
    · exact ⟨by omega, hlabel⟩

theorem TemplateForm.wellFormed {t : Template} (h : TemplateForm ws t) (hws : Spelled ws) :
    t.WellFormed := by
  obtain ⟨name, hparams, hnodup, hbody⟩ := h
  simp only [spelled_cons, spelled_append, name_spelled] at hws
  obtain ⟨hname, -, hu, -, -, hv, -⟩ := hws
  refine ⟨hname, hparams.forall hu fun _ _ => ParamForm.isIdentifier, hnodup,
    hbody.forall hv ?_⟩
  rintro u s ⟨h⟩ hu
  exact h.wellFormed hu

/-- The programs of the grammar are well formed. -/
theorem ProgramForm.wellFormed {p : Program} (h : ProgramForm ws p) (hws : Spelled ws) :
    p.WellFormed := by
  obtain ⟨h, hne, hnodup⟩ := h
  exact ⟨h.forall (spelled_append.mp hws).1 fun _ _ => TemplateForm.wellFormed, hne, hnodup⟩

end CombinatorNet
