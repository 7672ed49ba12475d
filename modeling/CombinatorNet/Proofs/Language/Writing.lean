import CombinatorNet.Proofs.Language.Words

/-!
# Written words

Words are written with a space behind each of them, and a label on a line of its own. What the
scanner makes of this are the same words again.

## Main definitions

* `Word.body`, `Word.stop` — the characters of a word, and the blank that ends it
* `Word.written` — a word as it stands in a text
* `Word.Takes`, `Word.EndsBefore` — the characters of a word, and the texts that they can end before
* `Word.Begins` — a text begins with a word

## Main results

* `Word.Lexed.begins` — the characters of a word are read as that word where it can end
* `scanFrom_written` — the scanner makes the same words of the words written one behind the other
-/

namespace CombinatorNet

/-! ### Characters -/

/-- A code point is not in a class if it stands between two ends that all its ranges avoid. -/
theorem CharRanges.holds_eq_false {rs : CharRanges} (hrs : rs.Ascending) {first last n : Nat}
    (hapart : ∀ r ∈ rs, r.2 < first ∨ last < r.1) (hfirst : first ≤ n) (hlast : n ≤ last) :
    rs.holds n = false := by
  rw [Bool.eq_false_iff, Ne, holds_iff hrs]
  rintro ⟨r, hr, hle, hge⟩
  have := hapart r hr
  omega

theorem isBlank_of_isDigit {c : Char} (h : c.isDigit = true) : isBlank c = false := by
  have hrange : 48 ≤ c.toNat ∧ c.toNat ≤ 57 := by
    rwa [Char.isDigit, Bool.and_eq_true, decide_eq_true_iff, decide_eq_true_iff] at h
  exact CharRanges.holds_eq_false blankRanges_ascending (by decide) hrange.1 hrange.2

theorem startsName_of_isDigit {c : Char} (h : c.isDigit = true) :
    Lexeme.startsName c = false := by
  have hrange : 48 ≤ c.toNat ∧ c.toNat ≤ 57 := by
    rwa [Char.isDigit, Bool.and_eq_true, decide_eq_true_iff, decide_eq_true_iff] at h
  have hletter : isAlphabetic c = false :=
    CharRanges.holds_eq_false alphabeticRanges_ascending (by decide +kernel) hrange.1 hrange.2
  rw [Lexeme.startsName, hletter, Bool.false_or, beq_eq_false_iff_ne]
  rintro rfl
  cases h

/-- What can stand in a name is not blank. -/
theorem isBlank_of_inName {c : Char} (h : Lexeme.inName c = true) : isBlank c = false := by
  rw [Lexeme.inName, isAlphanumeric, Bool.or_eq_true, Bool.or_eq_true, beq_iff_eq] at h
  obtain (hletter | hdigit) | rfl := h
  · have hapart : ∀ s ∈ alphabeticRanges, ∀ r ∈ blankRanges, r.2 < s.1 ∨ s.2 < r.1 := by
      decide +kernel
    obtain ⟨s, hs, hfirst, hlast⟩ := (CharRanges.holds_iff alphabeticRanges_ascending).mp hletter
    exact CharRanges.holds_eq_false blankRanges_ascending (hapart s hs) hfirst hlast
  · have hapart : ∀ s ∈ numericRanges, ∀ r ∈ blankRanges, r.2 < s.1 ∨ s.2 < r.1 := by
      decide +kernel
    obtain ⟨s, hs, hfirst, hlast⟩ := (CharRanges.holds_iff numericRanges_ascending).mp hdigit
    exact CharRanges.holds_eq_false blankRanges_ascending (hapart s hs) hfirst hlast
  · decide

theorem isBlank_of_startsName {c : Char} (h : Lexeme.startsName c = true) :
    isBlank c = false := isBlank_of_inName (inName_of_startsName h)

/-- The characters that start a lexeme other than a name or a number. -/
def signChars : List Char :=
  ['{', '}', '(', ')', ',', ':', '=', '+', '*', '/', '%', '&', '|', '^', '-', '!', '<', '>', '#']

theorem not_mem_signChars {P : Char → Bool} (hnone : signChars.all (!P ·) = true) {c : Char}
    (h : P c = true) : c ∉ signChars := by
  intro hmem
  have hno := List.all_eq_true.mp hnone c hmem
  rw [h] at hno
  cases hno

/-- A lexeme that starts with none of these characters is a number or a name. -/
theorem read_of_not_mem_signChars {c : Char} (h : c ∉ signChars) (cs : List Char) :
    Lexeme.read c cs = if c.isDigit then Lexeme.digits (c :: cs)
      else if Lexeme.startsName c then Lexeme.name (c :: cs)
      else Lexeme.fault (.unexpectedCharacter c) [c] cs := by
  have hne : ∀ d ∈ signChars, c ≠ d := fun d hd heq => h (heq ▸ hd)
  have hkind : Lexeme.kindOfChar? c = none := by
    unfold Lexeme.kindOfChar?
    split <;> first | rfl | exact absurd (by decide) h
  rw [Lexeme.read, if_neg fun hslash => hne '/' (by decide) hslash.1, hkind]
  simp only [if_neg (hne '-' (by decide)), if_neg (hne '!' (by decide)),
    if_neg (hne '#' (by decide)), or_iff_right (hne '<' (by decide)), if_neg (hne '>' (by decide))]

theorem comment?_of_ne {c : Char} (h : c ≠ '/') (cs : List Char) : comment? (c :: cs) = none := by
  rw [comment?.eq_def]
  split
  · next heq => exact absurd (List.cons.inj heq).1 h
  · next heq => exact absurd (List.cons.inj heq).1 h
  · rfl

/-- A text is cut where a run of characters ends. -/
theorem takeWhile_dropWhile_append {α : Type} {P : α → Bool} {xs ys : List α}
    (hxs : ∀ x ∈ xs, P x = true) (hys : ∀ y ∈ ys.head?, P y = false) :
    (xs ++ ys).takeWhile P = xs ∧ (xs ++ ys).dropWhile P = ys := by
  rw [List.takeWhile_append_of_pos hxs, List.dropWhile_append_of_pos hxs]
  cases ys with
  | nil => simp
  | cons y ys => simp [hys y rfl]

theorem eq_false_of_mem_head?_dropWhile {α : Type} {P : α → Bool} {xs : List α} {x : α}
    (h : x ∈ (xs.dropWhile P).head?) : P x = false := by
  have hstop := List.head?_dropWhile_not P xs
  rwa [Option.mem_def.mp h] at hstop

/-! ### Signs that another character can follow -/

theorem comment?_slash {rest : List Char} (hslash : ∀ c ∈ rest.head?, c ≠ '/')
    (hstar : ∀ c ∈ rest.head?, c ≠ '*') : comment? ('/' :: rest) = none := by
  rw [comment?.eq_def]
  split
  · next heq =>
    cases heq
    exact absurd rfl (hslash _ rfl)
  · next heq =>
    cases heq
    exact absurd rfl (hstar _ rfl)
  · rfl

theorem minus_eq_plain {rest : List Char} (h : ∀ c ∈ rest.head?, c ≠ '>') :
    Lexeme.minus rest = Lexeme.plain .operator ['-'] rest := by
  rw [Lexeme.minus.eq_def]
  split
  · exact absurd rfl (h _ rfl)
  · rfl

theorem angle_eq_plain {c : Char} {rest : List Char} (hequal : ∀ d ∈ rest.head?, d ≠ '=')
    (hdouble : ∀ d ∈ rest.head?, d ≠ c) :
    Lexeme.angle c rest = Lexeme.plain .operator [c] rest := by
  cases rest with
  | nil => rfl
  | cons d rest => rw [Lexeme.angle, if_neg (not_or.mpr ⟨hequal d rfl, hdouble d rfl⟩)]

/-! ### One word -/

/-- The characters that make another lexeme of an operator if they stand behind it. -/
def operatorFollowers : String → List Char
  | "-" => ['>']
  | "/" => ['/', '*']
  | "<" => ['<', '=']
  | ">" => ['>', '=']
  | _ => []

theorem isBlank_of_mem_operatorFollowers {text : String} {c : Char}
    (h : c ∈ operatorFollowers text) : isBlank c = false := by
  have hnone : (operatorFollowers text).all (!isBlank ·) = true := by
    unfold operatorFollowers
    split <;> rfl
  simpa using List.all_eq_true.mp hnone c h

namespace Word

/-- The characters of a word. -/
def body (w : Word) : List Char :=
  match w.1 with
  | .heading level => List.replicate level '#' ++ ' ' :: w.2.toList
  | _ => w.2.toList

/-- The blank behind a word. -/
def stop (w : Word) : Char :=
  match w.1 with
  | .heading _ => '\n'
  | _ => ' '

/-- A word as it stands in a text: a label is on a line of its own. -/
def written (w : Word) : List Char :=
  match w.1 with
  | .heading _ => '\n' :: w.body ++ [w.stop]
  | _ => w.body ++ [w.stop]

/-- Whether some characters are those of a word: for a heading, a run of `#` and a line that is the
label with blanks around it, else the text itself. -/
def Takes (w : Word) (chars : List Char) : Prop :=
  match w.1 with
  | .heading level => ∃ (marks : Nat) (label : List Char),
      chars = List.replicate marks '#' ++ label ∧ level = min marks 255 ∧
      label.head? ≠ some '#' ∧ '\n' ∉ label ∧ w.2 = String.ofList (trimBlanks label)
  | _ => chars = w.2.toList

/-- Whether a word with a character behind it is not read as that word. -/
def SpoiltBy (w : Word) (c : Char) : Prop :=
  match w.1 with
  | .identifier => Lexeme.inName c
  | .integer => c.isDigit ∨ Lexeme.startsName c
  | .operator => c ∈ operatorFollowers w.2
  | .heading _ => c ≠ '\n'
  | _ => False

/-- Whether a word can end in front of a text. -/
def EndsBefore (w : Word) (rest : List Char) : Prop := ∀ c ∈ rest.head?, ¬ w.SpoiltBy c

/-- Whether a word is read at the start of a text, up to a given rest. -/
def Begins (w : Word) (cs rest : List Char) : Prop :=
  ∃ c cs', cs = c :: cs' ∧ isBlank c = false ∧ comment? cs = none ∧
    (Lexeme.read c cs').reading = .ok w ∧ (Lexeme.read c cs').rest = rest

variable {w : Word} {cs rest chars : List Char}

/-- A name is read up to a character that cannot stand in it. -/
private theorem begins_name {text : String} (h : IsIdentifier text)
    (hends : ∀ c ∈ rest.head?, Lexeme.inName c = false) :
    Begins (.name text) (text.toList ++ rest) rest := by
  have hcut := takeWhile_dropWhile_append h.inName hends
  obtain ⟨c, cs, htext, hc, -⟩ := h
  have hsign : c ∉ signChars := not_mem_signChars (by decide +kernel) hc
  have hdigit : c.isDigit = false := by
    by_contra hdigit
    rw [startsName_of_isDigit (by simpa using hdigit)] at hc
    cases hc
  have hread : Lexeme.read c (cs ++ rest) = Lexeme.name (text.toList ++ rest) := by
    rw [read_of_not_mem_signChars hsign, hdigit, htext]
    simp [hc]
  refine ⟨c, cs ++ rest, by rw [htext]; rfl, isBlank_of_startsName hc, ?_, ?_, ?_⟩
  · rw [htext]
    refine comment?_of_ne ?_ _
    rintro rfl
    exact hsign (by decide)
  · rw [hread, Lexeme.name, hcut.1, Lexeme.plain, String.ofList_toList]
    rfl
  · rw [hread, Lexeme.name, hcut.2, Lexeme.plain]

/-- A run of digits is read up to a character that is no digit and starts no name. -/
private theorem begins_digits {text : String} (hne : text.toList ≠ [])
    (h : ∀ c ∈ text.toList, c.isDigit)
    (hends : ∀ c ∈ rest.head?, c.isDigit = false ∧ Lexeme.startsName c = false) :
    Begins (.integer, text) (text.toList ++ rest) rest := by
  have hcut := takeWhile_dropWhile_append h fun c hc => (hends c hc).1
  obtain ⟨c, cs, htext⟩ := List.exists_cons_of_ne_nil hne
  have hc : c.isDigit = true := h c (htext ▸ List.mem_cons_self)
  have hsign : c ∉ signChars := not_mem_signChars (by decide) hc
  have hread : Lexeme.read c (cs ++ rest) = Lexeme.plain .integer text.toList rest := by
    rw [read_of_not_mem_signChars hsign, if_pos hc, ← List.cons_append, ← htext, Lexeme.digits,
      hcut.1, hcut.2]
    cases rest with
    | nil => rfl
    | cons d rest => simp [(hends d rfl).2]
  refine ⟨c, cs ++ rest, by rw [htext]; rfl, isBlank_of_isDigit hc, ?_, ?_, ?_⟩
  · rw [htext]
    refine comment?_of_ne ?_ _
    rintro rfl
    exact hsign (by decide)
  · rw [hread, Lexeme.plain, String.ofList_toList]
  · rw [hread, Lexeme.plain]

/-- A sign is read whatever is behind it. -/
private theorem begins_sign {kind : TokenKind} (h : kind.isSign = true) (hne : kind ≠ .finish)
    (rest : List Char) : Begins (sign kind) ((signText kind).toList ++ rest) rest := by
  cases kind with
  | identifier | integer | operator | heading => cases h
  | finish => exact absurd rfl hne
  | _ => exact ⟨_, _, rfl, by decide, rfl, rfl, rfl⟩

/-- An operator is read unless the character behind it makes another lexeme of it. -/
private theorem begins_operator {op : Operator} (hne : op ≠ .eq)
    (hends : ∀ c ∈ rest.head?, c ∉ operatorFollowers op.symbol) :
    Begins (.operator, op.symbol) (op.symbol.toList ++ rest) rest := by
  -- The character behind matters to four operators only.
  cases op with
  | eq => exact absurd rfl hne
  | sub =>
    have hread : Lexeme.read '-' rest = Lexeme.plain .operator ['-'] rest :=
      minus_eq_plain fun c hc heq => hends c hc (heq ▸ by decide)
    exact ⟨'-', rest, rfl, by decide, rfl, by rw [hread]; rfl, by rw [hread]; rfl⟩
  | div =>
    have hcomment : comment? ('/' :: rest) = none := comment?_slash
      (fun c hc heq => hends c hc (heq ▸ by decide)) fun c hc heq => hends c hc (heq ▸ by decide)
    have hread : Lexeme.read '/' rest = Lexeme.plain .operator ['/'] rest := by
      rw [Lexeme.read, if_neg fun hstar => hends '*' hstar.2 (by decide)]
      rfl
    exact ⟨'/', rest, rfl, by decide, hcomment, by rw [hread]; rfl, by rw [hread]; rfl⟩
  | lt =>
    have hread : Lexeme.read '<' rest = Lexeme.plain .operator ['<'] rest := angle_eq_plain
      (fun c hc heq => hends c hc (heq ▸ by decide)) fun c hc heq => hends c hc (heq ▸ by decide)
    exact ⟨'<', rest, rfl, by decide, rfl, by rw [hread]; rfl, by rw [hread]; rfl⟩
  | gt =>
    have hread : Lexeme.read '>' rest = Lexeme.plain .operator ['>'] rest := angle_eq_plain
      (fun c hc heq => hends c hc (heq ▸ by decide)) fun c hc heq => hends c hc (heq ▸ by decide)
    exact ⟨'>', rest, rfl, by decide, rfl, by rw [hread]; rfl, by rw [hread]; rfl⟩
  | _ => exact ⟨_, _, rfl, by decide, rfl, rfl, rfl⟩

/-- A heading is read up to the end of its line. -/
private theorem begins_heading {marks : Nat} {label : List Char} (hpos : 0 < marks)
    (hmark : label.head? ≠ some '#') (hline : '\n' ∉ label)
    (hends : ∀ c ∈ rest.head?, c = '\n') :
    Begins (.heading (min marks 255), String.ofList (trimBlanks label))
      (List.replicate marks '#' ++ label ++ rest) rest := by
  obtain ⟨n, rfl⟩ : ∃ n, marks = n + 1 := ⟨marks - 1, by omega⟩
  have hlabel : ∀ c ∈ label, (c != '\n') = true := fun c hc =>
    bne_iff_ne.mpr fun heq => hline (heq ▸ hc)
  have hrest : ∀ c ∈ rest.head?, (c != '\n') = false := fun c hc => by
    rw [hends c hc]
    rfl
  have hmarks : ∀ c ∈ List.replicate (n + 1) '#', (c == '#') = true := fun c hc => by
    rw [(List.mem_replicate.mp hc).2]
    rfl
  have hbehind : ∀ c ∈ (label ++ rest).head?, (c == '#') = false := by
    intro c hc
    rw [beq_eq_false_iff_ne]
    rintro rfl
    cases label with
    | nil => exact absurd (hends '#' hc) (by decide)
    | cons d label => exact hmark hc
  have hcut := takeWhile_dropWhile_append hmarks hbehind
  have hcut' := takeWhile_dropWhile_append hlabel hrest
  have hread : Lexeme.read '#' (List.replicate n '#' ++ label ++ rest) =
      Lexeme.heading (List.replicate (n + 1) '#' ++ (label ++ rest)) := by
    rw [List.append_assoc]
    rfl
  refine ⟨'#', List.replicate n '#' ++ label ++ rest, rfl, by decide,
    comment?_of_ne (by decide) _, ?_, ?_⟩
  · rw [hread, Lexeme.heading, hcut.1, hcut.2, hcut'.1, List.length_replicate]
  · rw [hread, Lexeme.heading, hcut.2, hcut'.2]

/-- The characters of a word are read as that word in front of a text where it can end. -/
theorem Lexed.begins (h : w.Lexed) (htakes : w.Takes chars) (hends : w.EndsBefore rest) :
    w.Begins (chars ++ rest) rest := by
  obtain ⟨kind, text⟩ := w
  cases kind with
  | identifier =>
    rw [show chars = text.toList from htakes]
    exact begins_name h fun c hc => Bool.eq_false_iff.mpr (hends c hc)
  | integer =>
    rw [show chars = text.toList from htakes]
    exact begins_digits h.1 h.2 fun c hc => by simpa [SpoiltBy] using hends c hc
  | operator =>
    rw [show chars = text.toList from htakes]
    obtain ⟨op, hne, rfl⟩ := h
    exact begins_operator hne hends
  | heading level =>
    obtain ⟨marks, label, rfl, rfl, hmark, hline, rfl⟩ := htakes
    have hpos := h.1
    exact begins_heading (by omega) hmark hline fun c hc => not_not.mp (hends c hc)
  | finish => exact h.elim
  | _ =>
    have htext : text = signText _ := h
    rw [show chars = text.toList from htakes, htext]
    exact begins_sign (by rfl) (by nofun) rest

theorem Lexed.takes_body (h : w.Lexed) : w.Takes w.body := by
  obtain ⟨kind, text⟩ := w
  cases kind with
  | heading level =>
    refine ⟨level, ' ' :: text.toList, rfl, (Nat.min_eq_left h.2.1).symm, ?_, ?_, ?_⟩
    · rw [List.head?_cons, Ne, Option.some_inj]
      decide
    · rintro (_ | ⟨_, hmem⟩)
      exact h.2.2.2 hmem
    · rw [trimBlanks, List.dropWhile_cons_of_pos (by decide), ← trimBlanks, h.2.2.1,
        String.ofList_toList]
  | _ => rfl

/-- A word can end before any blank, and a heading before the end of its line. -/
theorem endsBefore_blank {c : Char} (hc : isBlank c = true)
    (hheading : ∀ level, w.1 = .heading level → c = '\n') (rest : List Char) :
    w.EndsBefore (c :: rest) := by
  intro d hd hspoilt
  cases hd
  have hno : isBlank c ≠ false := fun heq => absurd (hc.symm.trans heq) (by decide)
  obtain ⟨kind, text⟩ := w
  cases kind with
  | identifier => exact hno (isBlank_of_inName hspoilt)
  | integer => exact hno (hspoilt.elim isBlank_of_isDigit isBlank_of_startsName)
  | operator => exact hno (isBlank_of_mem_operatorFollowers hspoilt)
  | heading level => exact hspoilt (hheading level rfl)
  | _ => exact hspoilt

/-- A word can end before the blank that is written behind it. -/
theorem endsBefore_stop (w : Word) (rest : List Char) : w.EndsBefore (w.stop :: rest) := by
  refine endsBefore_blank ?_ ?_ rest
  · rw [stop]
    split <;> decide
  · intro level hlevel
    rw [stop, hlevel]

end Word

/-! ### Scanning -/

theorem splitBlank_of_isBlank {c : Char} (h : isBlank c = true) (cs : List Char) :
    splitBlank (c :: cs) = (c :: (splitBlank cs).1, (splitBlank cs).2) := by
  rw [splitBlank, if_pos h]

/-- A blank moves the scanner on, and makes no token. -/
theorem scanFrom_of_isBlank {c : Char} (h : isBlank c = true) (p : Position) (cs : List Char) :
    scanFrom p (c :: cs) = scanFrom (p.next c) cs := by
  rw [scanFrom, scanFrom, splitBlank_of_isBlank h]
  obtain ⟨gap, rest⟩ := splitBlank cs
  cases rest <;> rfl

/-- A word at the start of a text is the first token. -/
theorem scanFrom_of_begins {w : Word} {cs rest : List Char} (h : w.Begins cs rest)
    (p : Position) : ∃ (t : Token) (p' : Position), t.word = w ∧
      scanFrom p cs = .ok t :: scanFrom p' rest := by
  obtain ⟨c, cs', rfl, hblank, hcomment, hreading, rfl⟩ := h
  have hsplit : splitBlank (c :: cs') = ([], c :: cs') := by
    rw [splitBlank, if_neg (by rw [hblank]; exact Bool.false_ne_true)]
    split
    · next heq =>
      rw [hcomment] at heq
      cases heq
    · rfl
  have hlocate : ∀ span, (Lexeme.read c cs').locate span = .ok ⟨w.1, w.2, span⟩ := fun span => by
    rw [Lexeme.locate, hreading]
  set stop := p.after (Lexeme.read c cs').chars with hstop
  refine ⟨⟨w.1, w.2, ⟨p, stop⟩⟩, stop, rfl, ?_⟩
  rw [← hlocate, scanFrom, hsplit]
  rfl

/-- A written word is the first token of a text, and the blanks around it make none. -/
theorem scanFrom_written_append {w : Word} (h : w.Lexed) (p : Position) (cs : List Char) :
    ∃ (t : Token) (p' : Position), t.word = w ∧
      scanFrom p (w.written ++ cs) = .ok t :: scanFrom p' cs := by
  have hstop : isBlank w.stop = true := by
    rw [Word.stop]
    split <;> decide
  have hbody : ∀ p, ∃ (t : Token) (p' : Position), t.word = w ∧
      scanFrom p (w.body ++ w.stop :: cs) = .ok t :: scanFrom p' cs := by
    intro p
    have hbegins := h.begins h.takes_body (w.endsBefore_stop cs)
    obtain ⟨t, p', ht, hscan⟩ := scanFrom_of_begins hbegins p
    exact ⟨t, _, ht, by rw [hscan, scanFrom_of_isBlank hstop]⟩
  have hwritten : w.written ++ cs = w.body ++ w.stop :: cs ∨
      w.written ++ cs = '\n' :: (w.body ++ w.stop :: cs) := by
    rw [Word.written]
    split
    · exact .inr (by simp)
    · exact .inl (by simp)
  obtain heq | heq := hwritten
  · rw [heq]
    exact hbody p
  · rw [heq, scanFrom_of_isBlank (by decide)]
    exact hbody _

/-- The scanner makes the same words of the words written one behind the other, and the end of
input. -/
theorem scanFrom_written {ws : List Word} (h : ∀ w ∈ ws, w.Lexed) (p : Position) :
    ∃ tokens : List Token, scanFrom p (ws.flatMap Word.written) = tokens.map .ok ∧
      tokens.map Token.word = ws ++ [.sign .finish] := by
  induction ws generalizing p with
  | nil =>
    refine ⟨[Token.finish p], ?_, rfl⟩
    rw [List.flatMap_nil, scanFrom, splitBlank]
    rfl
  | cons w ws ih =>
    obtain ⟨hw, hws⟩ := List.forall_mem_cons.mp h
    obtain ⟨t, p', ht, hfirst⟩ := scanFrom_written_append hw p (ws.flatMap Word.written)
    obtain ⟨tokens, hscan, hwords⟩ := ih hws p'
    refine ⟨t :: tokens, ?_, ?_⟩
    · rw [List.flatMap_cons, hfirst, hscan, List.map_cons]
    · rw [List.map_cons, ht, hwords, List.cons_append]

end CombinatorNet
