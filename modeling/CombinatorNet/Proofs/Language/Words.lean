import CombinatorNet.Proofs.Language.Names
import Mathlib.Data.List.DropRight

/-!
# Words

A word is what a token says apart from its place. The scanner makes only words of a certain form,
and one of them, the end of input, stands at the end of every text and nowhere else.

## Main definitions

* `Word`, `Token.word` — a kind of token with a text
* `Word.name`, `Word.sign`, `Word.ofOperator` — the words of names, fixed signs and operators
* `Word.Lexed` — the form of the words that the scanner makes

## Main results

* `lexed_of_mem_scanFrom` — the words of a text have this form, but for the end of input
* `eq_nil_of_scanFrom_finish` — nothing stands behind the end of input
-/

namespace CombinatorNet

/-- What a token says, apart from its place: its kind and its text. -/
abbrev Word := TokenKind × String

/-- What a token says. -/
def Token.word (t : Token) : Word := (t.kind, t.text)

namespace Word

/-- The word that is a name. -/
def name (s : String) : Word := (.identifier, s)

/-- The text of the kinds of tokens that have one text only. -/
def signText : TokenKind → String
  | .arrow => "->"
  | .equals => "="
  | .openBrace => "\x7b"
  | .closeBrace => "\x7d"
  | .openParen => "("
  | .closeParen => ")"
  | .comma => ","
  | .colon => ":"
  | _ => ""

/-- The word of a kind of token that has one text only. -/
def sign (kind : TokenKind) : Word := (kind, signText kind)

/-- The word that is an operator; `=` is a sign, as it stands in bindings, too. -/
def ofOperator (op : Operator) : Word :=
  if op = .eq then sign .equals else (.operator, op.symbol)

end Word

/-- Whether a kind of token has one text only. -/
def TokenKind.isSign : TokenKind → Bool
  | .identifier | .integer | .operator | .heading _ => false
  | _ => true

/-- The text of a label: it fits in a line, and does not start or end with a blank. -/
def IsLabel (text : String) : Prop := trimBlanks text.toList = text.toList ∧ '\n' ∉ text.toList

/-- The form of the words that lexemes make. -/
def Word.Lexed (w : Word) : Prop :=
  match w.1 with
  | .identifier => IsIdentifier w.2
  | .integer => w.2.toList ≠ [] ∧ ∀ c ∈ w.2.toList, c.isDigit
  | .operator => ∃ op : Operator, op ≠ .eq ∧ op.symbol = w.2
  | .heading level => 0 < level ∧ level ≤ 255 ∧ IsLabel w.2
  | .finish => False
  | kind => w.2 = signText kind

/-- A word of a kind that has one text only is that sign, be it a lexeme or the end of input. -/
theorem Word.eq_sign {w : Word} (h : w = sign .finish ∨ w.Lexed) (hsign : w.1.isSign = true) :
    w = sign w.1 := by
  obtain rfl | h := h
  · rfl
  · obtain ⟨kind, text⟩ := w
    cases kind with
    | identifier | integer | operator | heading => cases hsign
    | finish => exact h.elim
    | _ => exact Prod.ext rfl h

/-! ### Labels -/

/-- Blanks are removed at the end, and so they are not there at the start any more. -/
private theorem dropWhile_trimBlanks (cs : List Char) :
    (trimBlanks cs).dropWhile isBlank = trimBlanks cs := by
  rw [List.dropWhile_eq_self_iff]
  intro hpos
  have hprefix : trimBlanks cs <+: cs.dropWhile isBlank := List.rdropWhile_prefix isBlank _
  have hlen : 0 < (cs.dropWhile isBlank).length := Nat.lt_of_lt_of_le hpos hprefix.length_le
  have hfirst := List.dropWhile_get_zero_not isBlank cs hlen
  rwa [List.get_eq_getElem, ← hprefix.getElem hpos] at hfirst

@[simp] theorem trimBlanks_trimBlanks (cs : List Char) :
    trimBlanks (trimBlanks cs) = trimBlanks cs := by
  rw [trimBlanks, dropWhile_trimBlanks]
  exact List.rdropWhile_idempotent isBlank (cs.dropWhile isBlank)

theorem mem_of_mem_trimBlanks {c : Char} {cs : List Char} (h : c ∈ trimBlanks cs) : c ∈ cs :=
  List.dropWhile_subset isBlank ((List.rdropWhile_prefix isBlank (cs.dropWhile isBlank)).subset h)

theorem isLabel_trimBlanks {cs : List Char} (h : '\n' ∉ cs) :
    IsLabel (String.ofList (trimBlanks cs)) := by
  rw [IsLabel, String.toList_ofList]
  exact ⟨trimBlanks_trimBlanks cs, fun hmem => h (mem_of_mem_trimBlanks hmem)⟩

/-! ### What the scanner makes -/

private theorem lexed_of_kindOfChar? {c : Char} {kind : TokenKind}
    (h : Lexeme.kindOfChar? c = some kind) : Word.Lexed (kind, String.ofList [c]) := by
  have hop : ∀ op : Operator, op ≠ .eq → op.symbol = String.ofList [c] →
      Word.Lexed (.operator, String.ofList [c]) := fun op hne heq => ⟨op, hne, heq⟩
  unfold Lexeme.kindOfChar? at h
  split at h <;> cases h
  -- First the signs, then the operators.
  · exact (rfl : _ = Word.signText .openBrace)
  · exact (rfl : _ = Word.signText .closeBrace)
  · exact (rfl : _ = Word.signText .openParen)
  · exact (rfl : _ = Word.signText .closeParen)
  · exact (rfl : _ = Word.signText .comma)
  · exact (rfl : _ = Word.signText .colon)
  · exact (rfl : _ = Word.signText .equals)
  · exact hop .add (by decide) rfl
  · exact hop .mul (by decide) rfl
  · exact hop .div (by decide) rfl
  · exact hop .rem (by decide) rfl
  · exact hop .and (by decide) rfl
  · exact hop .or (by decide) rfl
  · exact hop .xor (by decide) rfl

private theorem lexed_angle {c : Char} (hc : c = '<' ∨ c = '>') (cs : List Char) {w : Word}
    (h : (Lexeme.angle c cs).reading = .ok w) : w.Lexed := by
  obtain ⟨double, hdouble, hdsym⟩ :
      ∃ op : Operator, op ≠ .eq ∧ op.symbol = String.ofList [c, c] := by
    obtain rfl | rfl := hc
    · exact ⟨.shl, by decide, rfl⟩
    · exact ⟨.shr, by decide, rfl⟩
  obtain ⟨orEqual, horEqual, hosym⟩ :
      ∃ op : Operator, op ≠ .eq ∧ op.symbol = String.ofList [c, '='] := by
    obtain rfl | rfl := hc
    · exact ⟨.le, by decide, rfl⟩
    · exact ⟨.ge, by decide, rfl⟩
  obtain ⟨single, hsingle, hssym⟩ :
      ∃ op : Operator, op ≠ .eq ∧ op.symbol = String.ofList [c] := by
    obtain rfl | rfl := hc
    · exact ⟨.lt, by decide, rfl⟩
    · exact ⟨.gt, by decide, rfl⟩
  cases cs with
  | nil =>
    cases h
    exact ⟨single, hsingle, hssym⟩
  | cons d cs =>
    rw [Lexeme.angle] at h
    split at h
    · next hd =>
      cases h
      obtain rfl | rfl := hd
      · exact ⟨orEqual, horEqual, hosym⟩
      · exact ⟨double, hdouble, hdsym⟩
    · cases h
      exact ⟨single, hsingle, hssym⟩

private theorem lexed_heading (cs : List Char) {w : Word}
    (h : (Lexeme.heading ('#' :: cs)).reading = .ok w) : w.Lexed := by
  cases h
  refine ⟨?_, Nat.min_le_right _ _, isLabel_trimBlanks fun hmem => ?_⟩
  · show 0 < min ('#' :: cs.takeWhile (· == '#')).length 255
    rw [List.length_cons]
    omega
  · simpa using List.mem_takeWhile_imp hmem

private theorem lexed_digits {c : Char} (hc : c.isDigit) (cs : List Char) {w : Word}
    (h : (Lexeme.digits (c :: cs)).reading = .ok w) : w.Lexed := by
  have hdigits : Word.Lexed (.integer, String.ofList ((c :: cs).takeWhile Char.isDigit)) := by
    refine ⟨?_, fun d hd => ?_⟩
    · rw [String.toList_ofList, List.takeWhile_cons_of_pos hc]
      exact List.cons_ne_nil _ _
    · rw [String.toList_ofList] at hd
      exact List.mem_takeWhile_imp hd
  simp only [Lexeme.digits] at h
  split at h
  · cases h
    exact hdigits
  · split at h
    · cases h
    · cases h
      exact hdigits

/-- The word at the start of a text has the form of its kind. -/
theorem lexed_of_read {c : Char} {cs : List Char} {w : Word}
    (h : (Lexeme.read c cs).reading = .ok w) : w.Lexed := by
  by_cases hname : w.1 = .identifier
  · have hread : (Lexeme.read c cs).reading = .ok (w.1, w.2) := h
    have hlexed : IsIdentifier w.2 := named_of_read hread hname
    rw [Word.Lexed, hname]
    exact hlexed
  rw [Lexeme.read] at h
  -- The cases in the order in which the reader tries them.
  split at h
  · cases h
  · split at h
    · next hchar =>
      cases h
      exact lexed_of_kindOfChar? hchar
    · split at h
      · rw [Lexeme.minus.eq_def] at h
        split at h <;> cases h
        · exact (rfl : _ = Word.signText .arrow)
        · exact ⟨.sub, by decide, rfl⟩
      · split at h
        · rw [Lexeme.exclamation.eq_def] at h
          split at h <;> cases h
          exact ⟨.ne, by decide, rfl⟩
        · split at h
          · next hc => exact lexed_angle hc cs h
          · split at h
            · next hc => exact lexed_heading cs (hc ▸ h)
            · split at h
              · next hc => exact lexed_digits hc cs h
              · split at h
                · cases h
                  exact absurd rfl hname
                · cases h

theorem lexed_of_locate {c : Char} {cs : List Char} {span : Span} {t : Token}
    (h : (Lexeme.read c cs).locate span = .ok t) : t.word.Lexed := by
  rw [Lexeme.locate] at h
  split at h
  · next kind text hreading =>
    cases h
    exact lexed_of_read hreading
  · cases h

/-! ### Whole texts -/

/-- The words of a text are as lexemes make them, but for the end of input. -/
theorem lexed_of_mem_scanFrom {p : Position} {cs : List Char} {t : Token}
    (h : .ok t ∈ scanFrom p cs) : t.word = .sign .finish ∨ t.word.Lexed := by
  fun_induction scanFrom p cs with
  | case1 p cs gap hsplit =>
    obtain rfl := Except.ok.inj (List.mem_singleton.mp h)
    exact .inl rfl
  | case2 p cs gap c rest hsplit lexeme start stop ih =>
    obtain heq | hmem := List.mem_cons.mp h
    · exact .inr (lexed_of_locate heq.symm)
    · exact ih hmem

/-- Nothing stands behind the end of input. -/
theorem eq_nil_of_scanFrom_finish {p : Position} {cs : List Char}
    {after : List (Except SourceFault Token)} {t : Token} (hfinish : t.kind = .finish) :
    ∀ before, scanFrom p cs = before ++ .ok t :: after → after = [] := by
  fun_induction scanFrom p cs with
  | case1 p cs gap hsplit =>
    intro before h
    have hlen := congrArg List.length h
    rw [List.length_singleton, List.length_append, List.length_cons] at hlen
    exact List.eq_nil_of_length_eq_zero (by omega)
  | case2 p cs gap c rest hsplit lexeme start stop ih =>
    intro before h
    cases before with
    | nil =>
      -- The first lexeme is not the end of input.
      have hlexed := lexed_of_locate (List.cons.inj h).1
      rw [Word.Lexed, show t.word.1 = .finish from hfinish] at hlexed
      exact hlexed.elim
    | cons first before => exact ih before (List.cons.inj h).2

end CombinatorNet
