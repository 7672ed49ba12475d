import CombinatorNet.Combinator.Basic
import CombinatorNet.Proofs.Language.RoundTrip
import CombinatorNet.Proofs.Language.Slices

/-!
# Phrases written on a line

Expressions and lists of values are written with single spaces between their words, and without
spaces in front of commas and colons and behind minus signs. These texts are made up of the words of
the canonical form, too, so that a statement on a line of its own is parsed to what it stands for.

## Main definitions

* `Expr.text` — an expression on a line

## Main results

* `Spells.expr`, `Spells.values` — expressions and values on a line are made up of their words
* `Program.exists_parse_line` — a network of one line is parsed to the statement on it
-/

namespace CombinatorNet

/-- The words between the test or the value of an expression and its output. -/
def Expr.modeText (e : Expr) : String :=
  if e.op.isComparison then Combinator.thenText e.asOne else "as"

/-- An expression with single spaces between its parts. -/
def Expr.text (e : Expr) : String :=
  s!"{e.left.text} {e.op.symbol} {e.right.text} {e.modeText} {e.output}"

theorem Expr.toList_text (e : Expr) : e.text.toList =
    e.left.text.toList ++ ' ' :: (e.op.symbol.toList ++ ' ' :: (e.right.text.toList ++
      ' ' :: (e.modeText.toList ++ ' ' :: e.output.toList))) := by
  simp [text, toString]

/-- A signal with its value. -/
def valueText (value : String × Int) : String := value.1 ++ ": " ++ toString value.2

theorem Word.digits_ne_heading (text : String) (level : Nat) :
    (Word.digits text).1 ≠ .heading level := by
  rintro ⟨⟩

theorem Word.ofOperator_ne_heading (op : Operator) (level : Nat) :
    (Word.ofOperator op).1 ≠ .heading level := by
  cases op <;> rintro ⟨⟩

namespace Spells

variable {cs : List Char} {ws : List Word} {w : Word} {c : Char}

theorem space (h : Spells cs ws) : Spells (' ' :: cs) ws := h.blank (by decide)

/-- A word ends in front of a blank. -/
theorem cons_blank (h : Spells cs ws) (hc : isBlank c = true) (hlexed : w.Lexed)
    (hkind : ∀ level, w.1 ≠ .heading level) : Spells (w.2.toList ++ c :: cs) (w :: ws) :=
  (h.blank hc).cons hlexed hkind
    (Word.endsBefore_blank hc (fun level hlevel => absurd hlevel (hkind level)) cs)

theorem cons_space (h : Spells cs ws) (hlexed : w.Lexed) (hkind : ∀ level, w.1 ≠ .heading level) :
    Spells (w.2.toList ++ ' ' :: cs) (w :: ws) :=
  h.cons_blank (by decide) hlexed hkind

theorem name {s : String} (hs : IsIdentifier s) (h : Spells cs ws) :
    Spells (s.toList ++ ' ' :: cs) (.name s :: ws) :=
  h.cons_space (lexed_name.mpr hs) nofun

theorem arrow (h : Spells cs ws) : Spells ('-' :: '>' :: ' ' :: cs) (.sign .arrow :: ws) :=
  h.space.sign .arrow rfl nofun

/-- A number ends in front of what is no digit and starts no name. -/
theorem number (v : Int) (h : Spells cs ws)
    (hends : ∀ c ∈ cs.head?, ¬ (c.isDigit ∨ Lexeme.startsName c)) :
    Spells ((toString v).toList ++ cs) (numberWords v ++ ws) := by
  have hdigits := h.cons (lexed_digits_repr v.natAbs) (Word.digits_ne_heading _) hends
  rw [Int.toString_eq_repr, Int.repr_eq_if, numberWords]
  rcases lt_or_ge v 0 with hneg | hpos
  · have hminus : (Word.ofOperator .sub).EndsBefore (v.natAbs.repr.toList ++ cs) := by
      obtain ⟨hne, hall⟩ := lexed_digits_repr v.natAbs
      obtain ⟨d, ds, hrepr⟩ := List.exists_cons_of_ne_nil hne
      intro c hc hspoilt
      obtain rfl : c = '>' := List.mem_singleton.mp hspoilt
      rw [show v.natAbs.repr.toList = d :: ds from hrepr] at hc
      obtain rfl : d = '>' := Option.some_inj.mp hc
      exact absurd (hall '>' (hrepr ▸ List.mem_cons_self)) (by decide)
    have habs : (-v).toNat = v.natAbs := by omega
    rw [if_neg (not_le.mpr hneg), if_pos hneg, habs, String.toList_append, List.append_assoc]
    exact hdigits.cons (lexed_ofOperator .sub) (Word.ofOperator_ne_heading .sub) hminus
  · have habs : v.toNat = v.natAbs := by omega
    rw [if_pos hpos, if_neg (not_lt.mpr hpos), habs]
    exact hdigits

theorem operand {o : Operand} (ho : o.WellFormed) (h : Spells cs ws) :
    Spells (o.text.toList ++ ' ' :: cs) (o.words ++ ws) := by
  cases o with
  | signal s => exact name ho h
  | literal v =>
    refine number v h.space fun c hc => ?_
    obtain rfl : ' ' = c := Option.some_inj.mp hc
    decide +kernel

theorem mode (e : Expr) (h : Spells cs ws) :
    Spells (e.modeText.toList ++ ' ' :: cs) (e.modeWords ++ ws) := by
  have hthen : IsIdentifier "then" := by decide +kernel
  have has : IsIdentifier "as" := by decide +kernel
  rw [Expr.modeText, Expr.modeWords]
  split
  · rw [Combinator.thenText]
    split
    · have hone := (name has h).cons_space (lexed_digits_repr 1) (Word.digits_ne_heading _)
      exact name hthen hone
    · exact name hthen h
  · exact name has h

theorem operator (op : Operator) (h : Spells cs ws) :
    Spells (op.symbol.toList ++ ' ' :: cs) (.ofOperator op :: ws) := by
  have htext : (Word.ofOperator op).2 = op.symbol := by cases op <;> rfl
  rw [← htext]
  exact h.cons_space (lexed_ofOperator op) (Word.ofOperator_ne_heading op)

/-- An expression on a line is made up of its words. -/
theorem expr {e : Expr} (he : e.WellFormed) (h : Spells cs ws) :
    Spells (e.text.toList ++ ' ' :: cs) (e.words ++ ws) := by
  have hexpr := operand he.left (operator e.op (operand he.right (mode e (name he.output h))))
  have htext : e.text.toList ++ ' ' :: cs = e.left.text.toList ++ ' ' :: (e.op.symbol.toList ++
      ' ' :: (e.right.text.toList ++ ' ' :: (e.modeText.toList ++
        ' ' :: (e.output.toList ++ ' ' :: cs)))) := by
    simp [e.toList_text]
  have hwords : e.words ++ ws = e.left.words ++ .ofOperator e.op :: (e.right.words ++
      (e.modeWords ++ .name e.output :: ws)) := by
    simp [Expr.words]
  rw [htext, hwords]
  exact hexpr

/-- A signal and its value end in front of what is no digit and starts no name. -/
theorem value {value : String × Int} (hvalue : IsSignalValue value) (h : Spells cs ws)
    (hends : ∀ c ∈ cs.head?, ¬ (c.isDigit ∨ Lexeme.startsName c)) :
    Spells ((valueText value).toList ++ cs) (valueWords value ++ ws) := by
  have hcolon : Spells (':' :: ' ' :: ((toString value.2).toList ++ cs))
      (.sign .colon :: (numberWords value.2 ++ ws)) :=
    (number value.2 h hends).space.sign .colon rfl nofun
  have htext : (valueText value).toList ++ cs =
      value.1.toList ++ ':' :: ' ' :: ((toString value.2).toList ++ cs) := by
    simp [valueText]
  rw [htext]
  refine hcolon.cons (lexed_name.mpr hvalue.1) nofun fun c hc => ?_
  obtain rfl : ':' = c := Option.some_inj.mp hc
  show ¬ Lexeme.inName ':'
  decide +kernel

/-- Values with commas and spaces between them, in front of the closing brace. -/
theorem values {values : List (String × Int)} (hvalues : ∀ value ∈ values, IsSignalValue value)
    (h : Spells cs ws) :
    Spells ((", ".intercalate (values.map valueText)).toList ++ '}' :: cs)
      (listWords valueWords values ++ .sign .closeBrace :: ws) := by
  have hclose : Spells ('}' :: cs) (.sign .closeBrace :: ws) := h.sign .closeBrace rfl (by decide)
  fun_induction listWords valueWords values with
  | case1 => exact hclose
  | case2 e =>
    refine value (hvalues e List.mem_cons_self) hclose fun c hc => ?_
    obtain rfl : '}' = c := Option.some_inj.mp hc
    decide +kernel
  | case3 e es hne ih =>
    obtain ⟨he, hes⟩ := List.forall_mem_cons.mp hvalues
    obtain ⟨e', es, rfl⟩ := List.exists_cons_of_ne_nil hne
    have hcomma : Spells
        (',' :: ' ' :: ((", ".intercalate ((e' :: es).map valueText)).toList ++ '}' :: cs))
        (.sign .comma :: (listWords valueWords (e' :: es) ++ .sign .closeBrace :: ws)) :=
      (ih hes).space.sign .comma rfl (by decide)
    have hvalue := value he hcomma fun c hc => by
      obtain rfl : ',' = c := Option.some_inj.mp hc
      decide +kernel
    rw [List.map_cons, List.map_cons, String.intercalate_cons_cons]
    simpa [listWords] using hvalue

end Spells

/-! ### Statements on a line -/

/-- The keyword in front of the values of a constant statement, with a space behind it. -/
def Drive.keywordText : Drive → String
  | .constant => ""
  | .toggle => "toggle "
  | .pulse => "pulse "

/-- Values between braces. -/
def valuesText (values : List (String × Int)) : String :=
  "\x7b" ++ ", ".intercalate (values.map valueText) ++ "\x7d"

theorem Spells.keyword {cs : List Char} {ws : List Word} (drive : Drive) (h : Spells cs ws) :
    Spells (drive.keywordText.toList ++ cs) (drive.keyword ++ ws) := by
  have htoggle : IsIdentifier "toggle" := by decide +kernel
  have hpulse : IsIdentifier "pulse" := by decide +kernel
  cases drive with
  | constant => exact h
  | toggle => simpa [Drive.keywordText, Drive.keyword] using name htoggle h
  | pulse => simpa [Drive.keywordText, Drive.keyword] using name hpulse h

section Lines

variable {source target : String}

/-- A wire at the end of a line, behind an arrow. -/
theorem spells_output (htarget : IsIdentifier target) :
    Spells ('-' :: '>' :: ' ' :: (target.toList ++ ['\n', '\x7d']))
      [.sign .arrow, .name target, .sign .closeBrace] :=
  (spells_closeBrace.cons_blank (by decide) (lexed_name.mpr htarget) nofun).arrow

theorem spells_binary {e : Expr} (hsource : IsIdentifier source) (he : e.WellFormed)
    (htarget : IsIdentifier target) :
    Spells ((source ++ " -> " ++ e.text ++ " -> " ++ target).toList ++ ['\n', '\x7d'])
      ((Request.binary [source] e [target]).words ++ [.sign .closeBrace]) := by
  have hline := ((spells_output htarget).expr he).arrow.name hsource
  simpa [Request.words, wiresWords, Word.name] using hline

theorem spells_constant (drive : Drive) {values : List (String × Int)}
    (hvalues : ∀ value ∈ values, IsSignalValue value) (htarget : IsIdentifier target) :
    Spells ((drive.keywordText ++ valuesText values ++ " -> " ++ target).toList ++ ['\n', '\x7d'])
      ((Request.constant drive values [target]).words ++ [.sign .closeBrace]) := by
  have hlist := ((spells_output htarget).space.values hvalues).sign .openBrace rfl nofun
  simpa [Request.words, wiresWords, valuesText, Word.signText] using hlist.keyword drive

theorem spells_display {signal : String} (hsource : IsIdentifier source)
    (hsignal : IsIdentifier signal) :
    Spells ((source ++ " -> " ++ ("display " ++ signal)).toList ++ ['\n', '\x7d'])
      ((Request.display [source] signal).words ++ [.sign .closeBrace]) := by
  have hdisplay : IsIdentifier "display" := by decide +kernel
  have hname := spells_closeBrace.cons_blank (c := '\n') (by decide) (lexed_name.mpr hsignal) nofun
  have hline := (hname.name hdisplay).arrow.name hsource
  simpa [Request.words, wiresWords, Word.name] using hline

theorem spells_label {text : String} {level : Nat} (htext : IsLabel text)
    (hlevel : 1 ≤ level ∧ level ≤ 3) :
    Spells ((String.ofList (List.replicate level '#') ++ " " ++ text).toList ++ ['\n', '\x7d'])
      ((Request.label text level).words ++ [.sign .closeBrace]) := by
  obtain ⟨hpos, hle⟩ := hlevel
  have hlexed : Word.Lexed (.heading level, text) := ⟨by omega, by omega, htext⟩
  have hends : Word.EndsBefore (.heading level, text) ['\n', '\x7d'] :=
    Word.endsBefore_blank (by decide) (fun _ _ => rfl) _
  have hline : Spells _ ((.heading level, text) :: _) :=
    .word .nil ⟨hlexed, hlexed.takes_body, hends⟩ (spells_closeBrace.blank (c := '\n') (by decide))
  simpa [Request.words, Word.body] using hline

end Lines

/-! ### Networks of one line -/

/-- A network of one line is parsed to the statement on it. -/
theorem Program.exists_parse_line {r : Request} (hr : r.WellFormed) {line : String}
    (hspells : Spells (line.toList ++ ['\n', '\x7d']) (r.words ++ [.sign .closeBrace])) :
    ∃ q t s, parse ("Main() \x7b\n" ++ line ++ "\n\x7d") = .ok q ∧ q.templates = [t] ∧
      t.body = [s] ∧ s.unplaced = ⟨r.unplaced, .nowhere⟩ := by
  have hbody : Spells ("\n" ++ line ++ "\n\x7d").toList (r.words ++ [.sign .closeBrace]) := by
    rw [String.append_assoc, String.toList_append, String.toList_append]
    exact hspells.blank (by decide)
  obtain ⟨q, hparse, hq⟩ := exists_parse_main hbody (.mk hr.form)
  obtain ⟨t, htemplates, ht⟩ := List.map_eq_singleton_iff.mp (congrArg Program.templates hq)
  obtain ⟨s, hs, hstatement⟩ := List.map_eq_singleton_iff.mp (congrArg Template.body ht)
  refine ⟨q, t, s, ?_, htemplates, hs, hstatement⟩
  rw [← hparse, ← String.append_assoc, ← String.append_assoc]
  rfl

end CombinatorNet
