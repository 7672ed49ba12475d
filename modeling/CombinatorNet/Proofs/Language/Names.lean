import CombinatorNet.Language.Parse

/-!
# The names of a parsed program

Every name in a parsed program comes from a token, so it is spelled like an identifier: a letter or
an underscore, and then letters, digits and underscores. In particular, no name contains a dot.

## Main definitions

* `IsIdentifier` — the spelling of names
* `Program.names` — all names in a program
* `Reader.Yields` — what holds of the value of a reader, if the tokens are as the scanner makes them

## Main results

* `named_of_mem_scan` — the identifiers among the tokens of a text are spelled like one
* `Program.isIdentifier_of_parse` — and so are all names of a parsed program
-/

namespace CombinatorNet

/-- A name starts with a letter or an underscore, and goes on with letters, digits and
underscores. -/
def IsIdentifier (name : String) : Prop :=
  ∃ c cs, name.toList = c :: cs ∧ Lexeme.startsName c ∧ ∀ d ∈ cs, Lexeme.inName d

theorem inName_of_startsName {c : Char} (h : Lexeme.startsName c) : Lexeme.inName c := by
  simp only [Lexeme.startsName, Lexeme.inName, isAlphanumeric, Bool.or_eq_true] at h ⊢
  exact h.imp_left .inl

theorem IsIdentifier.inName {name : String} (h : IsIdentifier name) :
    ∀ c ∈ name.toList, Lexeme.inName c := by
  obtain ⟨c, cs, hname, hc, hcs⟩ := h
  rw [hname]
  exact List.forall_mem_cons.mpr ⟨inName_of_startsName hc, hcs⟩

/-- No name contains a dot. -/
theorem IsIdentifier.not_mem_dot {name : String} (h : IsIdentifier name) : '.' ∉ name.toList :=
  fun hdot => absurd (h.inName '.' hdot) (by decide +kernel)

/-! ### The names in a program -/

/-- The names in an operand. -/
def Operand.names : Operand → List String
  | signal name => [name]
  | literal _ => []

/-- The names in an expression. -/
def Expr.names (e : Expr) : List String := e.left.names ++ e.right.names ++ [e.output]

/-- The names in a binding. -/
def Binding.names (b : Binding) : List String := [b.formal, b.actual]

/-- The names in a request. -/
def Request.names : Request → List String
  | constant _ values outputs => values.map (·.1) ++ outputs
  | binary inputs expr outputs => inputs ++ expr.names ++ outputs
  | display inputs signal => inputs ++ [signal]
  | instantiate name bindings => name :: bindings.flatMap Binding.names
  | paint _ wires => wires
  | label _ _ => []

/-- The names in a template: its own, those of the parameters, and those in the body. -/
def Template.names (t : Template) : List String :=
  t.name :: t.params ++ t.body.flatMap (·.request.names)

/-- The names in a program. -/
def Program.names (p : Program) : List String := p.templates.flatMap Template.names

/-! ### Tokens -/

/-- If the token is an identifier, it is spelled like one. -/
def Token.Named (t : Token) : Prop := t.kind = .identifier → IsIdentifier t.text

/-- The name that starts a text is spelled like one. -/
private theorem isIdentifier_takeWhile {c : Char} {cs : List Char} (hc : Lexeme.startsName c) :
    IsIdentifier (String.ofList ((c :: cs).takeWhile Lexeme.inName)) := by
  have hin := inName_of_startsName hc
  refine ⟨c, cs.takeWhile Lexeme.inName, ?_, hc, fun d hd => ?_⟩
  · rw [String.toList_ofList, List.takeWhile_cons_of_pos hin]
  · have hall := List.all_takeWhile (p := Lexeme.inName) (l := cs)
    exact List.all_eq_true.mp hall d hd

/-- A token of a single character is no identifier. -/
private theorem kindOfChar?_ne_identifier {c : Char} {kind : TokenKind}
    (h : Lexeme.kindOfChar? c = some kind) : kind ≠ .identifier := by
  rintro rfl
  unfold Lexeme.kindOfChar? at h
  split at h <;> cases h

/-- An identifier at the start of a text is spelled like one; every other way to read a lexeme
makes a token of another kind, or a fault. -/
theorem named_of_read {c : Char} {cs : List Char} {kind : TokenKind} {text : String}
    (h : (Lexeme.read c cs).reading = .ok (kind, text)) (hkind : kind = .identifier) :
    IsIdentifier text := by
  subst hkind
  rw [Lexeme.read] at h
  -- The cases in the order in which the reader tries them: names come last but one.
  split at h
  · cases h
  · split at h
    · next hchar =>
      cases h
      exact absurd rfl (kindOfChar?_ne_identifier hchar)
    · split at h
      · rw [Lexeme.minus.eq_def] at h
        split at h <;> cases h
      · split at h
        · rw [Lexeme.exclamation.eq_def] at h
          split at h <;> cases h
        · split at h
          · cases cs with
            | nil => cases h
            | cons d cs =>
              rw [Lexeme.angle] at h
              split at h <;> cases h
          · split at h
            · cases h
            · split at h
              · simp only [Lexeme.digits] at h
                split at h
                · cases h
                · split at h <;> cases h
              · split at h
                · next hstart =>
                  cases h
                  exact isIdentifier_takeWhile hstart
                · cases h

theorem named_of_mem_scanFrom {p : Position} {cs : List Char} {t : Token}
    (h : .ok t ∈ scanFrom p cs) : t.Named := by
  fun_induction scanFrom p cs with
  | case1 p cs gap hsplit =>
    obtain rfl := Except.ok.inj (List.mem_singleton.mp h)
    intro hkind
    cases hkind
  | case2 p cs gap c rest hsplit lexeme start stop ih =>
    -- The token is the one at the start, or one of those behind it.
    obtain heq | hmem := List.mem_cons.mp h
    · cases hreading : lexeme.reading with
      | error fault =>
        rw [Lexeme.locate, hreading] at heq
        cases heq
      | ok reading =>
        rw [Lexeme.locate, hreading] at heq
        obtain rfl := Except.ok.inj heq
        exact named_of_read hreading
    · exact ih hmem

/-- The identifiers among the tokens of a text are spelled like one. -/
theorem named_of_mem_scan {source : String} {t : Token} (h : .ok t ∈ scan source) : t.Named :=
  named_of_mem_scanFrom h

/-! ### Readers -/

/-- The tokens that are left are as the scanner makes them. -/
def Feed.Named (feed : Feed) : Prop :=
  feed.current.Named ∧ ∀ t, .ok t ∈ feed.ahead → t.Named

namespace Reader

variable {α β : Type} {p : Reader α} {Q : α → Prop} {R : β → Prop}

/-- The values of a reader have a property, given tokens as the scanner makes them. -/
def Yields (p : Reader α) (Q : α → Prop) : Prop :=
  ∀ feed a feed', feed.Named → p feed = .ok (a, feed') → Q a ∧ feed'.Named

theorem Yields.pure {a : α} (h : Q a) : Yields (pure a : Reader α) Q := by
  intro feed b feed' hfeed hb
  cases hb
  exact ⟨h, hfeed⟩

theorem Yields.bind {f : α → Reader β} (hp : Yields p Q) (hf : ∀ a, Q a → Yields (f a) R) :
    Yields (p >>= f) R := by
  intro feed b feed' hfeed h
  obtain ⟨a, mid, h₁, h₂⟩ := bind_eq_ok.mp h
  obtain ⟨ha, hmid⟩ := hp _ _ _ hfeed h₁
  exact hf a ha _ _ _ hmid h₂

theorem Yields.ite {c : Prop} [Decidable c] {q : Reader α} (hp : Yields p Q) (hq : Yields q Q) :
    Yields (if c then p else q) Q := by
  split <;> assumption

theorem yields_current : Yields current Token.Named := by
  intro feed a feed' hfeed h
  cases h
  exact ⟨hfeed.1, hfeed⟩

theorem yields_throw (e : NetworkError) : Yields (throw e : Reader α) Q := by
  intro feed a feed' hfeed h
  cases h

theorem yields_fail (fault : SyntaxFault) (span : Span) : Yields (fail fault span : Reader α) Q :=
  yields_throw _

theorem yields_unexpected (what : String) : Yields (unexpected what : Reader α) Q :=
  yields_current.bind fun _ _ => yields_fail _ _

/-- The token taken is the one that was next. -/
theorem eq_current_of_advance {feed feed' : Feed} {t : Token} (h : advance feed = .ok (t, feed')) :
    t = feed.current := by
  rw [advance] at h
  split at h <;> cases h
  rfl

theorem yields_advance : Yields advance Token.Named := by
  intro feed t feed' hfeed h
  refine ⟨eq_current_of_advance h ▸ hfeed.1, ?_⟩
  rw [advance] at h
  split at h
  · cases h
  · cases h
  · next hahead =>
    cases h
    rw [Feed.Named, hahead] at hfeed
    exact ⟨hfeed.2 _ List.mem_cons_self, fun t ht => hfeed.2 t (List.mem_cons_of_mem _ ht)⟩

theorem yields_peekKind : Yields peekKind fun _ => True := by
  intro feed a feed' hfeed h
  rw [peekKind] at h
  split at h <;> cases h <;> exact ⟨trivial, hfeed⟩

theorem yields_expect (kind : TokenKind) (what : String) :
    Yields (expect kind what) fun t => t.kind = kind ∧ t.Named := by
  intro feed t feed' hfeed h
  obtain ⟨token, mid, hcurrent, h⟩ := bind_eq_ok.mp h
  cases hcurrent
  split at h
  · next hkind =>
    obtain ⟨hnamed, hfeed'⟩ := yields_advance _ _ _ hfeed h
    exact ⟨⟨eq_current_of_advance h ▸ hkind, hnamed⟩, hfeed'⟩
  · have hno : Yields (unexpected what) fun t : Token => t.kind = kind ∧ t.Named :=
      yields_unexpected what
    exact hno _ _ _ hfeed h

theorem yields_expectKeyword (word : String) : Yields (expectKeyword word) Token.Named :=
  yields_current.bind fun _ _ => yields_advance.ite (yields_unexpected _)

theorem yields_name (what : String) : Yields (name what) IsIdentifier :=
  (yields_expect _ _).bind fun _ ht => .pure (ht.2 ht.1)

theorem yields_spanFrom (start : Position) : Yields (spanFrom start) fun _ => True := by
  intro feed a feed' hfeed h
  cases h
  exact ⟨trivial, hfeed⟩

theorem yields_many {goesOn : TokenKind → Bool} {item : List α → Reader α}
    {h : ∀ seen, Shrinks (item seen)} (hitem : ∀ seen, Yields (item seen) Q) {seen : List α}
    (hseen : ∀ a ∈ seen, Q a) : Yields (many goesOn item h seen) fun as => ∀ a ∈ as, Q a := by
  intro feed
  fun_induction many goesOn item h seen feed with
  | case1 =>
    intro as feed' _ hp
    cases hp
  | case2 seen feed _ b mid hb ih =>
    intro as feed' hfeed hp
    obtain ⟨hQ, hmid⟩ := hitem _ _ _ _ hfeed hb
    refine ih (fun a ha => ?_) _ _ hmid hp
    obtain ha | ha := List.mem_append.mp ha
    · exact hseen a ha
    · exact List.mem_singleton.mp ha ▸ hQ
  | case3 =>
    intro as feed' hfeed hp
    cases hp
    exact ⟨hseen, hfeed⟩

theorem yields_commaList {close : TokenKind} {item : List α → Reader α}
    {h : ∀ seen, Shrinks (item seen)} (hitem : ∀ seen, Yields (item seen) Q) {seen : List α}
    (hseen : ∀ a ∈ seen, Q a) : Yields (commaList close item h seen) fun as => ∀ a ∈ as, Q a := by
  have hsnoc : ∀ {seen : List α} {b : α}, (∀ a ∈ seen, Q a) → Q b → ∀ a ∈ seen ++ [b], Q a := by
    intro seen b hseen hb
    exact List.forall_mem_append.mpr ⟨hseen, List.forall_mem_singleton.mpr hb⟩
  intro feed
  fun_induction commaList close item h seen feed with
  | case1 =>
    intro as feed' hfeed hp
    cases hp
    exact ⟨hseen, hfeed⟩
  | case2 =>
    intro as feed' _ hp
    cases hp
  | case3 =>
    intro as feed' _ hp
    cases hp
  | case4 seen feed _ b mid hb _ t mid' hcomma ih =>
    -- The comma is skipped, and the items so far have the property as well.
    intro as feed' hfeed hp
    obtain ⟨hQ, hmid⟩ := hitem _ _ _ _ hfeed hb
    exact ih (hsnoc hseen hQ) _ _ (yields_advance _ _ _ hmid hcomma).2 hp
  | case5 seen feed _ b mid hb _ =>
    intro as feed' hfeed hp
    cases hp
    obtain ⟨hQ, hmid⟩ := hitem _ _ _ _ hfeed hb
    exact ⟨hsnoc hseen hQ, hmid⟩

end Reader

/-! ### The grammar -/

open Reader

theorem yields_readDigits (negative : Bool) (start : Span) :
    Yields (readDigits negative start) fun _ => True :=
  (yields_expect _ _).bind fun _ _ => .ite (.pure trivial) (yields_fail _ _)

theorem yields_readNumber : Yields readNumber fun _ => True :=
  yields_current.bind fun _ _ =>
    .ite (yields_advance.bind fun _ _ => yields_readDigits _ _) (yields_readDigits _ _)

/-- An operand that is a signal is the token that made the reader look for a name. -/
theorem yields_readOperand : Yields readOperand fun o => ∀ n ∈ o.names, IsIdentifier n := by
  intro feed o feed' hfeed h
  obtain ⟨token, mid, hcurrent, h⟩ := bind_eq_ok.mp h
  cases hcurrent
  -- A number has no names, so only an identifier is of interest.
  have hnumber : Yields (do return Operand.literal (← readNumber)) fun o =>
      ∀ n ∈ o.names, IsIdentifier n :=
    yields_readNumber.bind fun v _ => .pure (by simp [Operand.names])
  have hno : Yields (unexpected "a signal or a number") fun o : Operand =>
    ∀ n ∈ o.names, IsIdentifier n := yields_unexpected _
  generalize hkind : feed.current.kind = kind at h
  cases kind with
  | identifier =>
    obtain ⟨t, mid, hadvance, h⟩ := bind_eq_ok.mp h
    cases h
    -- The token taken is the one that was looked at, so it is an identifier.
    obtain ⟨hnamed, hmid⟩ := yields_advance _ _ _ hfeed hadvance
    have hname : IsIdentifier t.text := hnamed (eq_current_of_advance hadvance ▸ hkind)
    exact ⟨List.forall_mem_singleton.mpr hname, hmid⟩
  | integer => exact hnumber _ _ _ hfeed h
  | operator => exact hnumber _ _ _ hfeed h
  | _ => exact hno _ _ _ hfeed h

theorem yields_readNextWire (seen : List String) : Yields (readNextWire seen) IsIdentifier :=
  yields_advance.bind fun _ _ => yields_name _

theorem yields_readWires : Yields readWires fun ws => ∀ w ∈ ws, IsIdentifier w :=
  yields_current.bind fun _ _ =>
    .ite
      (yields_advance.bind fun _ _ => (yields_name _).bind fun _ hfirst =>
        (yields_many yields_readNextWire (List.forall_mem_singleton.mpr hfirst)).bind fun _ hws =>
          (yields_expect _ _).bind fun _ _ => .pure hws)
      ((yields_name _).bind fun _ hw => .pure (List.forall_mem_singleton.mpr hw))

theorem yields_readValue (seen : List (String × Int)) :
    Yields (readValue seen) fun e => IsIdentifier e.1 :=
  (yields_expect _ _).bind fun _ ht =>
    .ite (yields_fail _ _) ((yields_expect _ _).bind fun _ _ =>
      yields_readNumber.bind fun _ _ => .pure (ht.2 ht.1))

theorem yields_readConstant (drive : Drive) :
    Yields (readConstant drive) fun r => ∀ n ∈ r.names, IsIdentifier n :=
  (yields_expect _ _).bind fun _ _ =>
    (yields_commaList yields_readValue (by simp)).bind fun values hvalues =>
      (yields_expect _ _).bind fun _ _ => (yields_expect _ _).bind fun _ _ =>
        yields_readWires.bind fun outputs houtputs => .pure (by
          rw [Request.names, List.forall_mem_append, List.forall_mem_map]
          exact ⟨hvalues, houtputs⟩)

theorem yields_readMode (op : Operator) : Yields (readMode op) fun _ => True :=
  .ite
    ((yields_expectKeyword _).bind fun _ _ => yields_current.bind fun _ _ =>
      .ite
        (yields_advance.bind fun _ _ =>
          .ite ((yields_expectKeyword _).bind fun _ _ => .pure trivial) (yields_fail _ _))
        (.pure trivial))
    ((yields_expectKeyword _).bind fun _ _ => .pure trivial)

theorem yields_readOperator : Yields readOperator fun _ => True :=
  yields_current.bind fun _ _ =>
    .ite
      (yields_advance.bind fun _ _ => by
        split
        · exact .pure trivial
        · exact yields_fail _ _)
      (yields_unexpected _)

theorem yields_readExpr : Yields readExpr fun e => ∀ n ∈ e.names, IsIdentifier n :=
  yields_current.bind fun _ _ => yields_readOperand.bind fun _ hleft =>
    yields_readOperator.bind fun _ _ => yields_readOperand.bind fun _ hright =>
      (yields_readMode _).bind fun _ _ => (yields_name _).bind fun _ houtput =>
        (yields_spanFrom _).bind fun _ _ => .pure (by
          rw [Expr.names, List.forall_mem_append, List.forall_mem_append,
            List.forall_mem_singleton]
          exact ⟨⟨hleft, hright⟩, houtput⟩)

theorem yields_atDisplay : Yields atDisplay fun _ => True :=
  yields_current.bind fun _ _ =>
    .ite (yields_peekKind.bind fun _ _ => .pure trivial) (.pure trivial)

theorem yields_readWired : Yields readWired fun r => ∀ n ∈ r.names, IsIdentifier n :=
  yields_readWires.bind fun inputs hinputs => (yields_expect _ _).bind fun _ _ =>
    yields_atDisplay.bind fun _ _ =>
      .ite
        (yields_advance.bind fun _ _ => (yields_name _).bind fun _ hsignal => .pure (by
          rw [Request.names, List.forall_mem_append, List.forall_mem_singleton]
          exact ⟨hinputs, hsignal⟩))
        (yields_readExpr.bind fun _ hexpr => (yields_expect _ _).bind fun _ _ =>
          yields_readWires.bind fun _ houtputs => .pure (by
            rw [Request.names, List.forall_mem_append, List.forall_mem_append]
            exact ⟨⟨hinputs, hexpr⟩, houtputs⟩))

theorem yields_readBinding (seen : List Binding) :
    Yields (readBinding seen) fun b => ∀ n ∈ b.names, IsIdentifier n :=
  (yields_expect _ _).bind fun _ hformal => (yields_expect _ _).bind fun _ _ =>
    (yields_expect _ _).bind fun _ hactual => .pure (by
      rw [Binding.names, List.forall_mem_cons, List.forall_mem_singleton]
      exact ⟨hformal.2 hformal.1, hactual.2 hactual.1⟩)

theorem yields_readInstance : Yields readInstance fun r => ∀ n ∈ r.names, IsIdentifier n :=
  (yields_name _).bind fun _ hname => (yields_expect _ _).bind fun _ _ =>
    (yields_commaList yields_readBinding (by simp)).bind fun _ hbindings =>
      (yields_expect _ _).bind fun _ _ => .pure (by
        rw [Request.names, List.forall_mem_cons]
        refine ⟨hname, fun n hn => ?_⟩
        obtain ⟨b, hb, hn⟩ := List.mem_flatMap.mp hn
        exact hbindings b hb n hn)

theorem yields_readNamed (form : NamedForm) :
    Yields (readNamed form) fun r => ∀ n ∈ r.names, IsIdentifier n := by
  cases form with
  | button drive => exact yields_advance.bind fun _ _ => yields_readConstant _
  | paint color => exact yields_advance.bind fun _ _ => yields_readWires.bind fun _ hws => .pure hws
  | unit => exact yields_readInstance
  | wired => exact yields_readWired

theorem yields_readRequest : Yields readRequest fun r => ∀ n ∈ r.names, IsIdentifier n :=
  yields_current.bind fun _ _ => by
    split
    · exact yields_advance.bind fun _ _ => .pure (by simp [Request.names])
    · exact yields_readConstant _
    · exact yields_readWired
    · exact yields_peekKind.bind fun _ _ => yields_readNamed _
    · exact yields_unexpected _

theorem yields_readStatement :
    Yields readStatement fun s => ∀ n ∈ s.request.names, IsIdentifier n :=
  yields_current.bind fun _ _ => yields_readRequest.bind fun _ hr =>
    (yields_spanFrom _).bind fun _ _ => .pure hr

theorem yields_readParam (seen : List String) : Yields (readParam seen) IsIdentifier :=
  (yields_expect _ _).bind fun _ ht => .ite (yields_fail _ _) (.pure (ht.2 ht.1))

theorem yields_readBodyStatement (seen : List Statement) :
    Yields (readBodyStatement seen) fun s => ∀ n ∈ s.request.names, IsIdentifier n :=
  yields_current.bind fun _ _ => .ite (yields_unexpected _) yields_readStatement

theorem yields_readBody :
    Yields readBody fun body => ∀ s ∈ body, ∀ n ∈ s.request.names, IsIdentifier n :=
  (yields_expect _ _).bind fun _ _ =>
    (yields_many yields_readBodyStatement (by simp)).bind fun _ hbody =>
      yields_advance.bind fun _ _ => .pure hbody

theorem yields_readTemplate (seen : List Template) :
    Yields (readTemplate seen) fun t => ∀ n ∈ t.names, IsIdentifier n :=
  yields_current.bind fun _ _ => (yields_name _).bind fun _ hname =>
    (yields_expect _ _).bind fun _ _ =>
      (yields_commaList yields_readParam (by simp)).bind fun _ hparams =>
        (yields_expect _ _).bind fun _ _ => (yields_spanFrom _).bind fun _ _ =>
          yields_readBody.bind fun _ hbody => .ite (yields_throw _) (.pure (by
            rw [Template.names, List.forall_mem_append, List.forall_mem_cons]
            refine ⟨⟨hname, hparams⟩, fun n hn => ?_⟩
            obtain ⟨s, hs, hn⟩ := List.mem_flatMap.mp hn
            exact hbody s hs n hn))

theorem yields_read : Yields Program.read fun p => ∀ n ∈ p.names, IsIdentifier n :=
  (yields_many yields_readTemplate (by simp)).bind fun _ htemplates =>
    .ite (yields_current.bind fun _ _ => yields_fail _ _) (.pure fun n hn => by
      obtain ⟨t, ht, hn⟩ := List.mem_flatMap.mp hn
      exact htemplates t ht n hn)

/-- The tokens of a text are as the scanner makes them, to begin with. -/
theorem named_ofLexemes {lexemes : List (Except SourceFault Token)} {feed : Feed}
    (hscan : ∀ t, .ok t ∈ lexemes → t.Named) (h : Feed.ofLexemes lexemes = .ok feed) :
    feed.Named := by
  cases lexemes with
  | nil =>
    cases h
    exact ⟨nofun, by simp⟩
  | cons lexeme ahead =>
    cases lexeme with
    | error fault => cases h
    | ok token =>
      cases h
      exact ⟨hscan token List.mem_cons_self, fun t ht => hscan t (List.mem_cons_of_mem _ ht)⟩

/-- All names of a parsed program are spelled like identifiers. -/
theorem Program.isIdentifier_of_parse {source : String} {p : Program}
    (h : Program.parse source = .ok p) : ∀ n ∈ p.names, IsIdentifier n := by
  rw [Program.parse, Program.ofLexemes] at h
  cases hfeed : Feed.ofLexemes (scan source) with
  | error e =>
    rw [hfeed] at h
    cases h
  | ok feed =>
    rw [hfeed] at h
    have hnamed : feed.Named := named_ofLexemes (fun _ ht => named_of_mem_scan ht) hfeed
    cases hread : Program.read feed with
    | error e =>
      simp only [hread] at h
      cases h
    | ok result =>
      obtain ⟨p', feed'⟩ := result
      simp only [hread] at h
      cases h
      exact (yields_read _ _ _ hnamed hread).1

end CombinatorNet
