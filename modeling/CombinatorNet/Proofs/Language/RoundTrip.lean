import CombinatorNet.Proofs.Language.Recognition
import CombinatorNet.Proofs.Language.WellFormed
import CombinatorNet.Proofs.Language.Writing

/-!
# Programs written and parsed again

A well-formed program has a canonical text, which is parsed to the same program, up to the places in
the text. Programs that are parsed are well formed, so each of them has such a text.

## Main definitions

* `Request.words`, `Template.words`, `Program.words` — the words of the canonical form
* `Program.text` — the canonical text

## Main results

* `Program.WellFormed.form` — the grammar makes the same program of these words
* `Program.WellFormed.lexed` — the words can be written
* `Program.wellFormed_of_parse` — a parsed program is well formed
* `Program.parse_text` — the program and its text, both ways
-/

namespace CombinatorNet

variable {α β : Type}

/-! ### The canonical form -/

/-- Items with commas between them. -/
def listWords (f : α → List Word) : List α → List Word
  | [] => []
  | [a] => f a
  | a :: as => f a ++ .sign .comma :: listWords f as

/-- One wire on its own, and several between parentheses. -/
def wiresWords : List String → List Word
  | [] => []
  | [wire] => [.name wire]
  | wire :: wires => .sign .openParen :: .name wire ::
      (wires.flatMap (fun w => [.sign .comma, .name w]) ++ [.sign .closeParen])

/-- The digits of a number, with a minus sign before them if there has to be one. -/
def numberWords (v : Int) : List Word :=
  if v < 0 then [.ofOperator .sub, .digits v.natAbs.repr] else [.digits v.natAbs.repr]

/-- A signal with its value. -/
def valueWords (value : String × Int) : List Word :=
  .name value.1 :: .sign .colon :: numberWords value.2

def Operand.words : Operand → List Word
  | signal name => [.name name]
  | literal value => numberWords value

/-- The words between the operands and the output. -/
def Expr.modeWords (e : Expr) : List Word :=
  if e.op.isComparison then
    .name "then" :: if e.asOne then [.digits "1", .name "as"] else []
  else [.name "as"]

def Expr.words (e : Expr) : List Word :=
  e.left.words ++ .ofOperator e.op :: (e.right.words ++ (e.modeWords ++ [.name e.output]))

def Binding.words (b : Binding) : List Word := [.name b.formal, .sign .equals, .name b.actual]

def Request.words : Request → List Word
  | constant drive values outputs => drive.keyword ++ .sign .openBrace ::
      (listWords valueWords values ++ .sign .closeBrace :: .sign .arrow :: wiresWords outputs)
  | binary inputs expr outputs =>
    wiresWords inputs ++ .sign .arrow :: (expr.words ++ .sign .arrow :: wiresWords outputs)
  | display inputs signal =>
    wiresWords inputs ++ [.sign .arrow, .name "display", .name signal]
  | instantiate name bindings => .name name :: .sign .openParen ::
      (listWords Binding.words bindings ++ [.sign .closeParen])
  | paint color wires => .name color.text :: wiresWords wires
  | label text level => [(.heading level, text)]

def Template.words (t : Template) : List Word :=
  .name t.name :: .sign .openParen :: (listWords (fun param => [.name param]) t.params ++
    .sign .closeParen :: .sign .openBrace ::
      (t.body.flatMap (·.request.words) ++ [.sign .closeBrace]))

/-- The words of a program, up to the end of input. -/
def Program.words (p : Program) : List Word := p.templates.flatMap Template.words

/-- The canonical text of a program: its words one behind the other. -/
def Program.text (p : Program) : String := String.ofList (p.words.flatMap Word.written)

example : Program.text ⟨[⟨"Main", [], [⟨.paint .red ["a", "b"], .nowhere⟩,
      ⟨.label "title" 2, .nowhere⟩, ⟨.constant .pulse [("x", -3)] ["a"], .nowhere⟩], .nowhere⟩]⟩ =
    "Main ( ) \x7b red ( a , b ) \n## title\npulse \x7b x : - 3 \x7d -> a \x7d " := by
  decide +kernel

/-! ### The canonical form is in the grammar -/

theorem listForm_listWords {Item : List Word → β → Prop} {f : α → List Word} {g : α → β}
    {as : List α} (h : ∀ a ∈ as, Item (f a) (g a)) :
    ListForm Item (listWords f as) (as.map g) := by
  fun_induction listWords f as with
  | case1 => exact .nil
  | case2 a => exact .last (h a List.mem_cons_self)
  | case3 a as hne ih =>
    obtain ⟨ha, has⟩ := List.forall_mem_cons.mp h
    exact .cons ha (ih has)

theorem repeatForm_flatMap {Item : List Word → β → Prop} {f : α → List Word} {g : α → β}
    {as : List α} (h : ∀ a ∈ as, Item (f a) (g a)) :
    RepeatForm Item (as.flatMap f) (as.map g) := by
  induction as with
  | nil => exact .nil
  | cons a as ih =>
    obtain ⟨ha, has⟩ := List.forall_mem_cons.mp h
    exact .cons ha (ih has)

theorem AreWires.form {wires : List String} (h : AreWires wires) :
    WiresForm (wiresWords wires) wires := by
  match wires with
  | [] => exact absurd rfl h.1
  | [wire] => exact .one wire
  | wire :: wire' :: wires => exact .several wire (wire' :: wires)

@[simp] theorem digitsValue_repr (n : Nat) : digitsValue n.repr = n := by
  rw [digitsValue, Nat.toList_repr, Nat.ofDigitChars_ten_toDigits]

theorem FitsWord.form {v : Int} (h : FitsWord v) : NumberForm (numberWords v) v := by
  rw [numberWords]
  split
  · next hneg =>
    have hv : -digitsValue v.natAbs.repr = v := by
      rw [digitsValue_repr]
      omega
    have hfits : FitsWord (-digitsValue v.natAbs.repr) := hv.symm ▸ h
    have hform := NumberForm.negative hfits
    rwa [hv] at hform
  · next hpos =>
    have hv : digitsValue v.natAbs.repr = v := by
      rw [digitsValue_repr]
      omega
    have hfits : FitsWord (digitsValue v.natAbs.repr) := hv.symm ▸ h
    have hform := NumberForm.positive hfits
    rwa [hv] at hform

theorem IsSignalValue.form {value : String × Int} (h : IsSignalValue value) :
    ValueForm (valueWords value) value := .mk h.2.1 h.2.2.form

theorem Operand.WellFormed.form {o : Operand} (h : o.WellFormed) : OperandForm o.words o := by
  cases o with
  | signal name => exact .signal name
  | literal value => exact .literal (FitsWord.form h)

theorem Expr.modeForm_modeWords {e : Expr} (h : e.asOne = true → e.op.isComparison = true) :
    ModeForm e.op e.modeWords e.asOne := by
  rw [modeWords]
  cases hcomparison : e.op.isComparison with
  | false =>
    rw [hcomparison] at h
    rw [Bool.eq_false_iff.mpr (mt h Bool.false_ne_true)]
    exact .arithmetic hcomparison
  | true =>
    cases e.asOne with
    | false => exact .comparison hcomparison
    | true => exact .one hcomparison

theorem Expr.WellFormed.form {e : Expr} (h : e.WellFormed) : ExprForm e.words e.unplaced :=
  .mk h.left.form h.right.form (modeForm_modeWords h.asOne) e.output

/-- The grammar makes the same request of the words of a request. -/
theorem Request.WellFormed.form {r : Request} (h : r.WellFormed) :
    RequestForm r.words r.unplaced := by
  cases r with
  | constant drive values outputs =>
    have hvalues : ListForm ValueForm (listWords valueWords values) (values.map id) :=
      listForm_listWords fun value hvalue => (h.1 value hvalue).form
    rw [List.map_id] at hvalues
    exact .constant (.mk hvalues h.2.form)
  | binary inputs expr outputs =>
    exact .wired (.binary h.1.form h.2.1.form h.2.2.form)
  | display inputs signal => exact .wired (.display h.1.form signal)
  | instantiate name bindings =>
    exact .unit h.2.1 h.2.2.1 (.mk name (listForm_listWords fun b _ => .mk b.formal b.actual))
  | paint color wires => exact .paint color (AreWires.form h)
  | label text level =>
    have hform := RequestForm.label level text
    rwa [Nat.min_eq_left h.1.2] at hform

theorem Template.WellFormed.form {t : Template} (h : t.WellFormed) :
    TemplateForm t.words t.unplaced := by
  have hparams : ListForm ParamForm (listWords (fun param => [.name param]) t.params)
      (t.params.map id) := listForm_listWords fun param _ => .mk param
  rw [List.map_id] at hparams
  exact .mk t.name hparams h.nodup
    (repeatForm_flatMap fun s hs => .mk (h.body s hs).form)

/-- The grammar makes the same program of the words of a program. -/
theorem Program.WellFormed.form {p : Program} (h : p.WellFormed) :
    ProgramForm (p.words ++ [.sign .finish]) p.unplaced := by
  have hne : p.unplaced.templates ≠ [] := (wellFormed_unplaced.mpr h).ne_nil
  exact .mk (repeatForm_flatMap fun t ht => (h.templates t ht).form) hne
    (wellFormed_unplaced.mpr h).nodup

/-! ### The canonical form can be written -/

theorem lexed_name {s : String} : (Word.name s).Lexed ↔ IsIdentifier s := Iff.rfl

theorem lexed_ofOperator (op : Operator) : (Word.ofOperator op).Lexed := by
  rw [Word.ofOperator]
  split
  · exact (rfl : _ = Word.signText .equals)
  · next hne => exact ⟨op, hne, rfl⟩

theorem lexed_digits_repr (n : Nat) : (Word.digits n.repr).Lexed := by
  show n.repr.toList ≠ [] ∧ ∀ c ∈ n.repr.toList, c.isDigit
  rw [Nat.toList_repr]
  exact ⟨Nat.toDigits_ne_nil, fun c => Nat.isDigit_of_mem_toDigits (by decide) (by decide)⟩

theorem lexed_listWords {f : α → List Word} {as : List α}
    (h : ∀ a ∈ as, ∀ w ∈ f a, w.Lexed) : ∀ w ∈ listWords f as, w.Lexed := by
  fun_induction listWords f as with
  | case1 => exact List.forall_mem_nil _
  | case2 a => exact h a List.mem_cons_self
  | case3 a as hne ih =>
    obtain ⟨ha, has⟩ := List.forall_mem_cons.mp h
    exact List.forall_mem_append.mpr ⟨ha, List.forall_mem_cons.mpr ⟨rfl, ih has⟩⟩

theorem lexed_flatMap {f : α → List Word} {as : List α} (h : ∀ a ∈ as, ∀ w ∈ f a, w.Lexed) :
    ∀ w ∈ as.flatMap f, w.Lexed := by
  intro w hw
  obtain ⟨a, ha, hw⟩ := List.mem_flatMap.mp hw
  exact h a ha w hw

theorem AreWires.lexed {wires : List String} (h : AreWires wires) :
    ∀ w ∈ wiresWords wires, w.Lexed := by
  match wires with
  | [] => exact List.forall_mem_nil _
  | [wire] => exact List.forall_mem_singleton.mpr (h.2 wire List.mem_cons_self)
  | wire :: wire' :: wires =>
    obtain ⟨hwire, hwires⟩ := List.forall_mem_cons.mp h.2
    have hmore : ∀ w ∈ (wire' :: wires).flatMap fun w => [.sign .comma, .name w],
        Word.Lexed w := lexed_flatMap fun w hw => by
      simp only [List.forall_mem_cons]
      exact ⟨rfl, hwires w hw, List.forall_mem_nil _⟩
    simp only [wiresWords, List.forall_mem_cons, List.forall_mem_append]
    exact ⟨rfl, hwire, hmore, rfl, List.forall_mem_nil _⟩

theorem lexed_numberWords (v : Int) : ∀ w ∈ numberWords v, w.Lexed := by
  have hdigits := lexed_digits_repr v.natAbs
  rw [numberWords]
  split
  · simp only [List.forall_mem_cons]
    exact ⟨lexed_ofOperator .sub, hdigits, List.forall_mem_nil _⟩
  · exact List.forall_mem_singleton.mpr hdigits

theorem IsSignalValue.lexed {value : String × Int} (h : IsSignalValue value) :
    ∀ w ∈ valueWords value, w.Lexed := by
  simp only [valueWords, List.forall_mem_cons]
  exact ⟨h.1, rfl, lexed_numberWords value.2⟩

theorem Operand.WellFormed.lexed {o : Operand} (h : o.WellFormed) : ∀ w ∈ o.words, w.Lexed := by
  cases o with
  | signal name => exact List.forall_mem_singleton.mpr h
  | literal value => exact lexed_numberWords value

theorem Expr.lexed_modeWords (e : Expr) : ∀ w ∈ e.modeWords, w.Lexed := by
  have hthen : IsIdentifier "then" := by decide +kernel
  have has : IsIdentifier "as" := by decide +kernel
  rw [modeWords]
  split
  · refine List.forall_mem_cons.mpr ⟨hthen, ?_⟩
    split
    · simp only [List.forall_mem_cons]
      exact ⟨lexed_digits_repr 1, has, List.forall_mem_nil _⟩
    · exact List.forall_mem_nil _
  · exact List.forall_mem_singleton.mpr has

theorem Expr.WellFormed.lexed {e : Expr} (h : e.WellFormed) : ∀ w ∈ e.words, w.Lexed := by
  simp only [words, List.forall_mem_cons, List.forall_mem_append]
  exact ⟨h.left.lexed, lexed_ofOperator e.op, h.right.lexed, e.lexed_modeWords, h.output,
    List.forall_mem_nil _⟩

theorem Binding.WellFormed.lexed {b : Binding} (h : b.WellFormed) : ∀ w ∈ b.words, w.Lexed := by
  simp only [words, List.forall_mem_cons]
  exact ⟨h.1, rfl, h.2, List.forall_mem_nil _⟩

theorem Drive.lexed_keyword (drive : Drive) : ∀ w ∈ drive.keyword, w.Lexed := by
  have htoggle : IsIdentifier "toggle" := by decide +kernel
  have hpulse : IsIdentifier "pulse" := by decide +kernel
  cases drive with
  | constant => exact List.forall_mem_nil _
  | toggle => exact List.forall_mem_singleton.mpr htoggle
  | pulse => exact List.forall_mem_singleton.mpr hpulse

theorem Request.WellFormed.lexed {r : Request} (h : r.WellFormed) : ∀ w ∈ r.words, w.Lexed := by
  cases r with
  | constant drive values outputs =>
    have hvalues := lexed_listWords fun value hvalue => (h.1 value hvalue).lexed
    simp only [words, List.forall_mem_cons, List.forall_mem_append]
    exact ⟨drive.lexed_keyword, rfl, hvalues, rfl, rfl, h.2.lexed⟩
  | binary inputs expr outputs =>
    simp only [words, List.forall_mem_cons, List.forall_mem_append]
    exact ⟨h.1.lexed, rfl, h.2.1.lexed, rfl, h.2.2.lexed⟩
  | display inputs signal =>
    have hdisplay : IsIdentifier "display" := by decide +kernel
    simp only [words, List.forall_mem_cons, List.forall_mem_append]
    exact ⟨h.1.lexed, rfl, hdisplay, h.2, List.forall_mem_nil _⟩
  | instantiate name bindings =>
    have hbindings := lexed_listWords fun b hb => (h.2.2.2 b hb).lexed
    simp only [words, List.forall_mem_cons, List.forall_mem_append]
    exact ⟨h.1, rfl, hbindings, rfl, List.forall_mem_nil _⟩
  | paint color wires =>
    have hcolor : IsIdentifier color.text := by cases color <;> decide +kernel
    exact List.forall_mem_cons.mpr ⟨hcolor, AreWires.lexed h⟩
  | label text level =>
    have hlevel : level ≤ 255 := Nat.le_trans h.1.2 (by decide)
    exact List.forall_mem_singleton.mpr ⟨h.1.1, hlevel, h.2⟩

theorem Template.WellFormed.lexed {t : Template} (h : t.WellFormed) : ∀ w ∈ t.words, w.Lexed := by
  have hparams := lexed_listWords (f := fun param => [.name param]) fun param hparam =>
    List.forall_mem_singleton.mpr (lexed_name.mpr (h.params param hparam))
  have hbody := lexed_flatMap (f := fun s : Statement => s.request.words) fun s hs =>
    (h.body s hs).lexed
  simp only [words, List.forall_mem_cons, List.forall_mem_append]
  exact ⟨h.name, rfl, hparams, rfl, rfl, hbody, rfl, List.forall_mem_nil _⟩

/-- The words of a well-formed program can be written. -/
theorem Program.WellFormed.lexed {p : Program} (h : p.WellFormed) : ∀ w ∈ p.words, w.Lexed :=
  lexed_flatMap fun t ht => (h.templates t ht).lexed

/-! ### There and back -/

namespace Program

variable {source : String} {p : Program}

/-- Only well-formed programs are parsed. -/
theorem wellFormed_of_parse (h : parse source = .ok p) : p.WellFormed := by
  obtain ⟨tokens, hscan, hform⟩ := programForm_of_parse h
  refine wellFormed_unplaced.mp (hform.wellFormed fun w hw => ?_)
  obtain ⟨t, ht, rfl⟩ := List.mem_map.mp hw
  have hmem : .ok t ∈ scanFrom .origin source.toList := by
    rw [← scan, hscan]
    exact List.mem_map_of_mem ht
  exact lexed_of_mem_scanFrom hmem

/-- The text of a well-formed program is parsed to this program. -/
theorem parse_text_of_wellFormed (h : p.WellFormed) :
    ∃ q, parse p.text = .ok q ∧ q.unplaced = p.unplaced := by
  obtain ⟨tokens, hscan, hwords⟩ := scanFrom_written h.lexed .origin
  have hform : ProgramForm (tokens.map Token.word) p.unplaced := hwords ▸ h.form
  refine parse_of_programForm ?_ hform
  rw [scan, text, String.toList_ofList]
  exact hscan

/-- A well-formed program is what its text is parsed to, up to places. Programs that are parsed from
any text are well formed, so they are parsed again from their own text. -/
theorem parse_text :
    (∀ p : Program, p.WellFormed → ∃ q, parse p.text = .ok q ∧ q.unplaced = p.unplaced) ∧
    ∀ source p, parse source = .ok p →
      p.WellFormed ∧ ∃ q, parse p.text = .ok q ∧ q.unplaced = p.unplaced := by
  refine ⟨fun p => parse_text_of_wellFormed, fun source p h => ?_⟩
  have hwell := wellFormed_of_parse h
  exact ⟨hwell, parse_text_of_wellFormed hwell⟩

/-- A program with keywords as names, the least and the greatest literal, and a label that looks
like a heading with a comment. -/
def edgeProgram : Program :=
  ⟨[⟨"red", ["then", "as"], [
      ⟨.paint .red ["red", "green"], .nowhere⟩,
      ⟨.binary ["toggle"]
        ⟨.literal (-0x8000000000000000), .sub, .literal (-1), "as", false, .nowhere⟩ ["display"],
        .nowhere⟩,
      ⟨.display ["display"] "display", .nowhere⟩,
      ⟨.binary ["as", "then"]
        ⟨.signal "each", .eq, .literal 0x7fffffffffffffff, "all", true, .nowhere⟩ ["red"],
        .nowhere⟩,
      ⟨.label "# x -> y // z" 2, .nowhere⟩,
      ⟨.constant .pulse [("pulse", 0)] ["pulse"], .nowhere⟩], .nowhere⟩,
    ⟨"each", [], [⟨.instantiate "pulse" [⟨"then", "red", .nowhere⟩], .nowhere⟩], .nowhere⟩]⟩

theorem parse_text_edgeProgram :
    edgeProgram.WellFormed ∧
    ∃ q, parse edgeProgram.text = .ok q ∧ q.unplaced = edgeProgram ∧ q.WellFormed := by
  have hwell : edgeProgram.WellFormed := by decide +kernel
  obtain ⟨q, hparse, hq⟩ := parse_text.1 edgeProgram hwell
  exact ⟨hwell, q, hparse, hq, (parse_text.2 _ q hparse).1⟩

end Program

end CombinatorNet
