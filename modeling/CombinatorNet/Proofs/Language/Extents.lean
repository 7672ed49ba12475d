import CombinatorNet.Proofs.Language.Recognition

/-!
# The tokens of phrases

A parser may have looked at a token behind a phrase when it says where the phrase ends. Here the
tokens that it has taken are followed, so that the span of a phrase is seen to be that from its
first to its last token, whatever is behind it, and the tokens of a program are cut into those of
its templates, and these into those of their statements.

## Main definitions

* `Spans`, `Covers` — tokens with a given span, and tokens some of which have it
* `Feed.Leaves` — the tokens that have been taken from a feed
* `Reader.Takes`, `Reader.Covering` — what is known of the tokens that a reader takes
* `Statement.MadeOf`, `Template.MadeOf` — the tokens of statements and templates

## Main results

* `Reader.takes_many` — the tokens of a repetition are those of its items
* `takes_readStatement`, `takes_readTemplate` — statements and templates are made of the tokens
  taken
* `Program.exists_madeOf_of_parse` — the tokens of a text are those of its templates
-/

namespace CombinatorNet

/-! ### Spans of tokens -/

/-- The span goes from the first to the last of the tokens. -/
def Spans (ts : List Token) (span : Span) : Prop :=
  ∃ first ∈ ts.head?, ∃ last ∈ ts.getLast?, span = first.span.upTo last.span

/-- Some of the tokens, which stand behind each other, have the span. -/
def Covers (ts : List Token) (span : Span) : Prop := ∃ us, us <:+: ts ∧ Spans us span

theorem Covers.mono {us ts : List Token} {span : Span} (h : Covers us span) (hus : us <:+: ts) :
    Covers ts span := by
  obtain ⟨vs, hvs, hspan⟩ := h
  exact ⟨vs, hvs.trans hus, hspan⟩

/-- The places in a request: that of an expression, or those of bindings. -/
def Request.spans : Request → List Span
  | binary _ expr _ => [expr.span]
  | instantiate _ bindings => bindings.map (·.span)
  | _ => []

/-! ### Feeds -/

/-- The tokens are taken from a feed, and `feed'` is left. -/
structure Feed.Leaves (feed : Feed) (ts : List Token) (feed' : Feed) : Prop where
  lexemes : feed.lexemes = ts.map .ok ++ feed'.lexemes
  last : feed'.last = (ts.getLast?.map (·.span.stop)).getD feed.last

namespace Feed.Leaves

variable {feed mid feed' : Feed} {ts us vs : List Token}

theorem nil (feed : Feed) : feed.Leaves [] feed := ⟨rfl, rfl⟩

theorem trans (h : feed.Leaves us mid) (h' : mid.Leaves vs feed') :
    feed.Leaves (us ++ vs) feed' where
  lexemes := by rw [h.lexemes, h'.lexemes, List.map_append, List.append_assoc]
  last := by
    rw [h'.last, h.last, List.getLast?_append]
    cases vs.getLast? <;> rfl

theorem shows (h : feed.Leaves ts feed') : feed.Shows (ts.map Token.word) feed' :=
  ⟨ts, rfl, h.lexemes⟩

theorem lexed (h : feed.Leaves ts feed') (hfeed : feed.Lexed) : feed'.Lexed := h.shows.lexed hfeed

/-- The words that are taken are those of the tokens. -/
theorem word_eq (h : feed.Leaves ts feed') {ws : List Word} (hws : feed.Shows ws feed') :
    ts.map Token.word = ws := by
  obtain ⟨us, rfl, hus⟩ := hws
  have hinj : Function.Injective (Except.ok : Token → Except SourceFault Token) :=
    fun _ _ => Except.ok.inj
  rw [hinj.list_map (List.append_cancel_right (h.lexemes.symm.trans hus))]

/-- If tokens have been taken, then the first one was the next one before, and the last one says
where to go on. -/
theorem spans (h : feed.Leaves ts feed') (hne : ts ≠ []) :
    Spans ts ⟨feed.current.span.start, feed'.last⟩ := by
  have hlexemes := h.lexemes
  have hlast := h.last
  obtain ⟨first, more, rfl⟩ := List.exists_cons_of_ne_nil hne
  obtain ⟨last, hlast'⟩ := Option.ne_none_iff_exists'.mp (mt List.getLast?_eq_none_iff.mp hne)
  have hfirst : feed.current = first := Except.ok.inj (List.cons.inj hlexemes).1
  rw [hlast'] at hlast
  exact ⟨first, rfl, last, hlast', by rw [hfirst, hlast]; rfl⟩

end Feed.Leaves

/-! ### Readers -/

namespace Reader

variable {α β : Type} {p : Reader α} {Q : List Token → α → Prop} {R : List Token → β → Prop}

/-- Whenever a reader yields a value, it has taken tokens with a property. -/
def Takes (p : Reader α) (Q : List Token → α → Prop) : Prop :=
  ∀ feed a feed', feed.Lexed → p feed = .ok (a, feed') → ∃ ts, feed.Leaves ts feed' ∧ Q ts a

theorem Takes.mono {Q' : List Token → α → Prop} (h : Takes p Q) (hQ : ∀ ts a, Q ts a → Q' ts a) :
    Takes p Q' := by
  intro feed a feed' hfeed hp
  obtain ⟨ts, hleaves, hts⟩ := h feed a feed' hfeed hp
  exact ⟨ts, hleaves, hQ ts a hts⟩

theorem Takes.pure {a : α} (h : Q [] a) : Takes (pure a : Reader α) Q := by
  intro feed b feed' _ hp
  cases hp
  exact ⟨[], .nil feed, h⟩

theorem Takes.bind {f : α → Reader β} (hp : Takes p Q)
    (hf : ∀ us a, Q us a → Takes (f a) fun vs b => R (us ++ vs) b) : Takes (p >>= f) R := by
  intro feed b feed' hfeed h
  obtain ⟨a, mid, h₁, h₂⟩ := bind_eq_ok.mp h
  obtain ⟨us, hus, hQ⟩ := hp feed a mid hfeed h₁
  obtain ⟨vs, hvs, hR⟩ := hf us a hQ mid b feed' (hus.lexed hfeed) h₂
  exact ⟨us ++ vs, hus.trans hvs, hR⟩

theorem takes_advance : Takes advance fun ts t => ts = [t] := by
  intro feed t feed' _ h
  rw [advance] at h
  split at h
  · obtain ⟨token, mid, -, h⟩ := bind_eq_ok.mp h
    cases h
  · cases h
  · next token ahead hahead =>
    cases h
    exact ⟨[feed.current], ⟨congrArg _ hahead, rfl⟩, rfl⟩

/-- The tokens of a repetition are those of its items. -/
theorem takes_many {goesOn : TokenKind → Bool} {item : List α → Reader α}
    {h : ∀ seen, Shrinks (item seen)} (hitem : ∀ seen, Takes (item seen) Q) (seen : List α) :
    Takes (many goesOn item h seen) fun ts as => ∃ items : List (List Token × α),
      as = seen ++ items.map Prod.snd ∧ ts = (items.map Prod.fst).flatten ∧
      ∀ i ∈ items, Q i.1 i.2 := by
  intro feed as feed' hfeed hp
  fun_induction many goesOn item h seen feed with
  | case1 => cases hp
  | case2 seen feed _ b mid hb ih =>
    obtain ⟨us, hus, hQ⟩ := hitem seen feed b mid hfeed hb
    obtain ⟨vs, hvs, items, rfl, rfl, hitems⟩ := ih (hus.lexed hfeed) hp
    refine ⟨_, hus.trans hvs, (us, b) :: items, ?_, rfl, List.forall_mem_cons.mpr ⟨hQ, hitems⟩⟩
    rw [List.map_cons, List.append_assoc, List.singleton_append]
  | case3 seen feed _ =>
    cases hp
    exact ⟨[], .nil _, [], (List.append_nil _).symm, rfl, List.forall_mem_nil _⟩

/-- The tokens of a list have those of its items among them, with commas between. -/
theorem takes_commaList {close : TokenKind} {item : List α → Reader α}
    {h : ∀ seen, Shrinks (item seen)} (hitem : ∀ seen, Takes (item seen) Q) (seen : List α) :
    Takes (commaList close item h seen) fun ts as => ∃ items : List (List Token × α),
      as = seen ++ items.map Prod.snd ∧ ∀ i ∈ items, i.1 <:+: ts ∧ Q i.1 i.2 := by
  intro feed as feed' hfeed hp
  fun_induction commaList close item h seen feed with
  | case1 seen feed _ =>
    cases hp
    exact ⟨[], .nil _, [], (List.append_nil _).symm, List.forall_mem_nil _⟩
  | case2 => cases hp
  | case3 => cases hp
  | case4 seen feed _ b mid hb _ comma next hcomma ih =>
    obtain ⟨us, hus, hQ⟩ := hitem seen feed b mid hfeed hb
    obtain ⟨_, hw, rfl⟩ := takes_advance mid comma next (hus.lexed hfeed) hcomma
    obtain ⟨vs, hvs, items, rfl, hitems⟩ := ih (hw.lexed (hus.lexed hfeed)) hp
    refine ⟨_, hus.trans (hw.trans hvs), (us, b) :: items, ?_, List.forall_mem_cons.mpr ⟨?_, ?_⟩⟩
    · rw [List.map_cons, List.append_assoc, List.singleton_append]
    · exact ⟨(List.prefix_append us _).isInfix, hQ⟩
    · intro i hi
      obtain ⟨hwithin, hQ'⟩ := hitems i hi
      exact ⟨hwithin.trans ⟨us ++ [comma], [], by simp⟩, hQ'⟩
  | case5 seen feed _ b mid hb _ =>
    obtain ⟨us, hus, hQ⟩ := hitem seen feed b mid hfeed hb
    cases hp
    exact ⟨us, hus, [(us, b)], rfl, List.forall_mem_singleton.mpr ⟨List.infix_rfl, hQ⟩⟩

/-- A span can be made behind a phrase that is not empty. -/
theorem Takes.bind_span (hp : Takes p Q) (hshrinks : Shrinks p) {f : α → Span → Reader β}
    (hf : ∀ us a span, Q us a → Spans us span → Takes (f a span) fun vs b => R (us ++ vs) b) :
    Takes (current >>= fun t => p >>= fun a => spanFrom t.span.start >>= f a) R := by
  intro feed b feed' hfeed h
  obtain ⟨t, _, hcurrent, h⟩ := bind_eq_ok.mp h
  cases hcurrent
  obtain ⟨a, mid, h₁, h⟩ := bind_eq_ok.mp h
  obtain ⟨span, _, hspan, h₂⟩ := bind_eq_ok.mp h
  cases hspan
  obtain ⟨us, hus, hQ⟩ := hp feed a mid hfeed h₁
  have hne : us ≠ [] := by
    rintro rfl
    have hlen := hshrinks feed a mid h₁
    have hahead := (List.cons.inj hus.lexemes).2
    exact absurd (congrArg List.length hahead) hlen.ne'
  obtain ⟨vs, hvs, hR⟩ := hf us a _ hQ (hus.spans hne) mid b feed' (hus.lexed hfeed) h₂
  exact ⟨us ++ vs, hus.trans hvs, hR⟩

/-! ### Places inside of what is read -/

variable {known : List Span} {places : α → List Span} {places' : β → List Span}

/-- Whenever a reader yields a value, the places in it are known, or those of tokens taken. -/
def Covering (known : List Span) (p : Reader α) (places : α → List Span) : Prop :=
  Takes p fun ts a => ∀ span ∈ places a, span ∈ known ∨ Covers ts span

theorem Covering.pure {a : α} (h : places a ⊆ known) : Covering known (pure a : Reader α) places :=
  Takes.pure fun _ hspan => .inl (h hspan)

theorem Covering.bind {f : α → Reader β} (hp : Covering known p places)
    (hf : ∀ a, Covering (known ++ places a) (f a) places') : Covering known (p >>= f) places' :=
  Takes.bind hp fun us a hus => (hf a).mono fun vs b hvs span hspan => by
    rcases hvs span hspan with hknown | hcovers
    · rcases List.mem_append.mp hknown with hknown | hplace
      · exact .inl hknown
      · exact (hus span hplace).imp_right fun h => h.mono (List.prefix_append us vs).isInfix
    · exact .inr (hcovers.mono (List.suffix_append us vs).isInfix)

theorem Covering.ite {c : Prop} [Decidable c] {q : Reader α} (hp : Covering known p places)
    (hq : Covering known q places) : Covering known (if c then p else q) places := by
  split <;> assumption

theorem covering_throw (e : NetworkError) : Covering known (throw e : Reader α) places := by
  intro feed a feed' _ h
  cases h

theorem covering_fail (fault : SyntaxFault) (span : Span) :
    Covering known (fail fault span : Reader α) places :=
  covering_throw _

theorem covering_current : Covering known current fun _ => [] := by
  intro feed a feed' _ h
  cases h
  exact ⟨[], .nil feed, List.forall_mem_nil _⟩

theorem covering_unexpected (what : String) :
    Covering known (unexpected what : Reader α) places :=
  covering_current.bind fun _ => covering_fail _ _

theorem covering_advance : Covering known advance fun t => [t.span] :=
  takes_advance.mono fun ts t hts span hspan => by
    rw [hts, List.mem_singleton.mp hspan]
    exact .inr ⟨[t], List.infix_rfl, t, rfl, t, rfl, rfl⟩

theorem covering_peekKind : Covering known peekKind fun _ => [] := by
  intro feed kind feed' _ h
  obtain rfl := peeks_peekKind.stays h
  exact ⟨[], .nil feed', List.forall_mem_nil _⟩

theorem takes_expect (kind : TokenKind) (what : String) :
    Takes (expect kind what) fun ts t => ts = [t] := by
  intro feed t feed' hfeed h
  obtain ⟨token, _, hcurrent, h⟩ := bind_eq_ok.mp h
  cases hcurrent
  split at h
  · exact takes_advance feed t feed' hfeed h
  · cases h

theorem covering_expect (kind : TokenKind) (what : String) :
    Covering known (expect kind what) fun t => [t.span] :=
  covering_current.bind fun _ => covering_advance.ite (covering_unexpected _)

theorem covering_expectKeyword (word : String) :
    Covering known (expectKeyword word) fun t => [t.span] :=
  covering_current.bind fun _ => covering_advance.ite (covering_unexpected _)

theorem covering_name (what : String) : Covering known (name what) fun _ => [] :=
  (covering_expect _ _).bind fun _ => .pure (List.nil_subset _)

theorem covering_many {goesOn : TokenKind → Bool} {item : List α → Reader α}
    {h : ∀ seen, Shrinks (item seen)} (hitem : ∀ seen, Covering known (item seen) fun _ => [])
    (seen : List α) : Covering known (many goesOn item h seen) fun _ => [] :=
  (takes_many hitem seen).mono fun _ _ _ => List.forall_mem_nil _

theorem covering_commaList {close : TokenKind} {item : List α → Reader α}
    {h : ∀ seen, Shrinks (item seen)} (hitem : ∀ seen, Covering known (item seen) places) :
    Covering known (commaList close item h []) fun as => as.flatMap places :=
  (takes_commaList hitem []).mono fun ts as ⟨items, has, hitems⟩ span hspan => by
    rw [has, List.nil_append] at hspan
    obtain ⟨a, ha, hspan⟩ := List.mem_flatMap.mp hspan
    obtain ⟨i, hi, rfl⟩ := List.mem_map.mp ha
    obtain ⟨hwithin, hcovers⟩ := hitems i hi
    exact (hcovers span hspan).imp_right fun h => h.mono hwithin

end Reader

/-! ### The grammar -/

open Reader

variable {known : List Span}

theorem covering_readDigits (negative : Bool) (start : Span) :
    Covering known (readDigits negative start) fun _ => [] :=
  (covering_expect _ _).bind fun _ => .ite (.pure (List.nil_subset _)) (covering_fail _ _)

theorem covering_readNumber : Covering known readNumber fun _ => [] :=
  covering_current.bind fun _ =>
    .ite (covering_advance.bind fun _ => covering_readDigits _ _) (covering_readDigits _ _)

theorem covering_readOperand : Covering known readOperand fun _ => [] :=
  covering_current.bind fun _ => by
    split
    · exact covering_advance.bind fun _ => .pure (List.nil_subset _)
    · exact covering_readNumber.bind fun _ => .pure (List.nil_subset _)
    · exact covering_readNumber.bind fun _ => .pure (List.nil_subset _)
    · exact covering_unexpected _

theorem covering_readNextWire (seen : List String) :
    Covering known (readNextWire seen) fun _ => [] :=
  covering_advance.bind fun _ => covering_name _

theorem covering_readWires : Covering known readWires fun _ => [] :=
  covering_current.bind fun _ =>
    .ite
      (covering_advance.bind fun _ => (covering_name _).bind fun _ =>
        (covering_many covering_readNextWire _).bind fun _ =>
          (covering_expect _ _).bind fun _ => .pure (List.nil_subset _))
      ((covering_name _).bind fun _ => .pure (List.nil_subset _))

theorem covering_readValue (seen : List (String × Int)) :
    Covering known (readValue seen) fun _ => [] :=
  (covering_expect _ _).bind fun _ =>
    .ite (covering_fail _ _) ((covering_expect _ _).bind fun _ =>
      covering_readNumber.bind fun _ => .pure (List.nil_subset _))

theorem covering_readConstant (drive : Drive) :
    Covering known (readConstant drive) Request.spans :=
  (covering_expect _ _).bind fun _ =>
    (covering_commaList covering_readValue).bind fun _ =>
      (covering_expect _ _).bind fun _ => (covering_expect _ _).bind fun _ =>
        covering_readWires.bind fun _ => .pure (List.nil_subset _)

theorem covering_readMode (op : Operator) : Covering known (readMode op) fun _ => [] :=
  .ite
    ((covering_expectKeyword _).bind fun _ => covering_current.bind fun _ =>
      .ite
        (covering_advance.bind fun _ =>
          .ite ((covering_expectKeyword _).bind fun _ => .pure (List.nil_subset _))
            (covering_fail _ _))
        (.pure (List.nil_subset _)))
    ((covering_expectKeyword _).bind fun _ => .pure (List.nil_subset _))

theorem covering_readOperator : Covering known readOperator fun _ => [] :=
  covering_current.bind fun _ =>
    .ite
      (covering_advance.bind fun _ => by
        split
        · exact .pure (List.nil_subset _)
        · exact covering_fail _ _)
      (covering_unexpected _)

/-- Read an expression except for its place. -/
def readExprParts : Reader Expr := do
  let left ← readOperand
  let op ← readOperator
  let right ← readOperand
  let asOne ← readMode op
  let output ← name "an output signal"
  return { left, op, right, output, asOne, span := .nowhere }

theorem readExpr_eq : readExpr = do
    let t ← current
    let e ← readExprParts
    let span ← spanFrom t.span.start
    return { e with span } := by
  simp only [readExpr, readExprParts, bind_assoc, pure_bind]

theorem shrinks_readExprParts : Shrinks readExprParts :=
  keeps_readOperand.bind_shrinks fun _ => keeps_readOperator.bind_shrinks fun _ =>
    keeps_readOperand.bind_shrinks fun _ => (keeps_readMode _).bind_shrinks fun _ =>
      (shrinks_name _).bind fun _ => .pure _

theorem covering_readExprParts : Covering known readExprParts fun _ => [] :=
  covering_readOperand.bind fun _ => covering_readOperator.bind fun _ =>
    covering_readOperand.bind fun _ => (covering_readMode _).bind fun _ =>
      (covering_name _).bind fun _ => .pure (List.nil_subset _)

/-- The span of an expression is that of its tokens. -/
theorem covering_readExpr : Covering known readExpr fun e => [e.span] := by
  rw [readExpr_eq]
  have hparts : Covering known readExprParts fun _ => [] := covering_readExprParts
  refine hparts.bind_span shrinks_readExprParts
    fun us e span _ hspan => Takes.pure fun span' hspan' => ?_
  rw [List.append_nil, List.mem_singleton.mp hspan']
  exact .inr ⟨us, List.infix_rfl, hspan⟩

theorem covering_atDisplay : Covering known atDisplay fun _ => [] :=
  covering_current.bind fun _ =>
    .ite (covering_peekKind.bind fun _ => .pure (List.nil_subset _)) (.pure (List.nil_subset _))

theorem covering_readWired : Covering known readWired Request.spans :=
  covering_readWires.bind fun _ => (covering_expect _ _).bind fun _ =>
    covering_atDisplay.bind fun _ =>
      .ite
        (covering_advance.bind fun _ => (covering_name _).bind fun _ => .pure (List.nil_subset _))
        (covering_readExpr.bind fun e => (covering_expect _ _).bind fun _ =>
          covering_readWires.bind fun _ => .pure (by simp [Request.spans]))


/-- The span of a binding is that of its tokens, a parameter, a sign and a name. -/
theorem covering_readBinding (seen : List Binding) :
    Covering known (readBinding seen) fun b => [b.span] :=
  (takes_expect _ _).bind fun _ formal hformal => (takes_expect _ _).bind fun us _ _ =>
    (takes_expect _ _).bind fun _ actual hactual => Takes.pure fun span hspan => by
      rw [hformal, hactual, List.append_nil, List.mem_singleton.mp hspan]
      have hlast : ((formal :: us) ++ [actual]).getLast? = some actual := List.getLast?_concat
      exact .inr ⟨_, List.infix_rfl, formal, rfl, actual, hlast, rfl⟩

theorem covering_readInstance : Covering known readInstance Request.spans :=
  (covering_name _).bind fun _ => (covering_expect _ _).bind fun _ =>
    (covering_commaList covering_readBinding).bind fun bindings =>
      (covering_expect _ _).bind fun _ => .pure fun span hspan => by
        rw [Request.spans, List.map_eq_flatMap] at hspan
        exact List.mem_append_left _ (List.mem_append_right _ hspan)

theorem covering_readNamed (form : NamedForm) :
    Covering known (readNamed form) Request.spans := by
  cases form with
  | button drive => exact covering_advance.bind fun _ => covering_readConstant _
  | paint color =>
    exact covering_advance.bind fun _ => covering_readWires.bind fun _ => .pure (List.nil_subset _)
  | unit => exact covering_readInstance
  | wired => exact covering_readWired

theorem covering_readRequest : Covering known readRequest Request.spans :=
  covering_current.bind fun _ => by
    split
    · exact covering_advance.bind fun _ => .pure (List.nil_subset _)
    · exact covering_readConstant _
    · exact covering_readWired
    · exact covering_peekKind.bind fun _ => covering_readNamed _
    · exact covering_unexpected _

/-! ### Statements and templates -/

/-- The tokens are those of a statement: its span is theirs, the places in it are among them, and
their words are what it looks like. -/
structure Statement.MadeOf (s : Statement) (ts : List Token) : Prop where
  span : Spans ts s.span
  places : ∀ span ∈ s.request.spans, Covers ts span
  form : StatementForm (ts.map Token.word) s.unplaced

/-- The tokens are those of a template: there are some with its span, and behind them those of its
statements, one behind the other. -/
def Template.MadeOf (t : Template) (ts : List Token) : Prop :=
  ∃ (us vs ws : List Token) (items : List (List Token × Statement)),
    ts = us ++ vs ++ (items.map Prod.fst).flatten ++ ws ∧ Spans us t.span ∧
    t.body = items.map Prod.snd ∧ ∀ i ∈ items, i.2.MadeOf i.1

theorem takes_readStatement : Takes readStatement fun ts s => s.MadeOf ts := by
  have hrequest : Covering [] readRequest Request.spans := covering_readRequest
  have hspan : Takes readStatement fun ts s =>
      Spans ts s.span ∧ ∀ span ∈ s.request.spans, Covers ts span := by
    refine hrequest.bind_span shrinks_readRequest fun us request span hus hspan => Takes.pure ?_
    rw [List.append_nil]
    exact ⟨hspan, fun place hplace => (hus place hplace).resolve_left List.not_mem_nil⟩
  intro feed s feed' hfeed h
  obtain ⟨ts, hts, hspan, hplaces⟩ := hspan feed s feed' hfeed h
  obtain ⟨ws, hws, hform⟩ := reads_readStatement.sound hfeed h
  exact ⟨ts, hts, hspan, hplaces, (hts.word_eq hws).symm ▸ hform⟩

theorem takes_readBodyStatement (seen : List Statement) :
    Takes (readBodyStatement seen) fun ts s => s.MadeOf ts := by
  intro feed s feed' hfeed h
  obtain ⟨token, _, hcurrent, h⟩ := bind_eq_ok.mp h
  cases hcurrent
  split at h
  · obtain ⟨_, _, -, h⟩ := bind_eq_ok.mp h
    cases h
  · exact takes_readStatement feed s feed' hfeed h

theorem takes_readBody : Takes readBody fun ts body =>
    ∃ (us ws : List Token) (items : List (List Token × Statement)),
      ts = us ++ (items.map Prod.fst).flatten ++ ws ∧ body = items.map Prod.snd ∧
      ∀ i ∈ items, i.2.MadeOf i.1 :=
  (takes_expect _ _).bind fun us _ _ =>
    (takes_many takes_readBodyStatement []).bind fun vs body ⟨items, hbody, hvs, hitems⟩ =>
      takes_advance.bind fun ws _ _ => Takes.pure
        ⟨us, ws, items, by simp [hvs], by rw [hbody, List.nil_append], hitems⟩

theorem covering_readParam {known : List Span} (seen : List String) :
    Covering known (readParam seen) fun _ => [] :=
  (covering_expect _ _).bind fun _ => .ite (covering_fail _ _) (.pure (List.nil_subset _))

/-- Read the name and the parameters of a template. -/
def readHeader : Reader (String × List String) := do
  let name ← name "a network name"
  let _ ← expect .openParen "'('"
  let params ← commaList .closeParen readParam shrinks_readParam []
  let _ ← expect .closeParen "')'"
  return (name, params)

theorem readTemplate_eq (seen : List Template) : readTemplate seen = do
    let t ← current
    let header ← readHeader
    let span ← spanFrom t.span.start
    let body ← readBody
    if seen.any (fun t => t.name = header.1) then throw (.duplicateTemplate header.1 span)
    else return ⟨header.1, header.2, body, span⟩ := by
  simp only [readTemplate, readHeader, bind_assoc, pure_bind]

theorem shrinks_readHeader : Shrinks readHeader :=
  (shrinks_name _).bind fun _ => ((shrinks_expect _ _).bind fun _ =>
    (keeps_commaList _ _ _ _).bind fun _ =>
      ((shrinks_expect _ _).bind fun _ => .pure _).keeps).keeps

theorem covering_readHeader {known : List Span} : Covering known readHeader fun _ => [] :=
  (covering_name _).bind fun _ => (covering_expect _ _).bind fun _ =>
    (covering_commaList covering_readParam).bind fun _ =>
      (covering_expect _ _).bind fun _ => .pure (List.nil_subset _)

theorem takes_readTemplate (seen : List Template) :
    Takes (readTemplate seen) fun ts t => t.MadeOf ts := by
  rw [readTemplate_eq]
  have hheader : Covering [] readHeader fun _ => [] := covering_readHeader
  refine hheader.bind_span shrinks_readHeader fun us header span _ hspan =>
    takes_readBody.bind fun vs body ⟨vs', ws, items, hvs, hbody, hitems⟩ => ?_
  intro feed t feed' _ h
  split at h
  · cases h
  · cases h
    exact ⟨[], .nil _, us, vs', ws, items, by simp [hvs], hspan, hbody, hitems⟩

/-! ### Programs -/

/-- A text that is parsed has no faults, and its tokens but for the last one are those of the
templates, one behind the other. -/
theorem Program.exists_madeOf_of_parse {source : String} {p : Program} (h : parse source = .ok p) :
    ∃ (items : List (List Token × Template)) (finish : Token),
      scan source = ((items.map Prod.fst).flatten ++ [finish]).map .ok ∧
      p.templates = items.map Prod.snd ∧ ∀ i ∈ items, i.2.MadeOf i.1 := by
  obtain ⟨feed, feed', hscan, hlexed, hread, hahead, -⟩ := exists_read_of_parse h
  obtain ⟨templates, mid, hmany, hread⟩ := bind_eq_ok.mp hread
  obtain ⟨_, hleaves, items, rfl, rfl, hitems⟩ :=
    takes_many takes_readTemplate [] feed templates mid hlexed hmany
  split at hread
  · obtain ⟨_, _, -, hread⟩ := bind_eq_ok.mp hread
    cases hread
  · cases hread
    refine ⟨items, feed'.current, ?_, rfl, hitems⟩
    rw [List.map_append, List.map_singleton, ← hscan, hleaves.lexemes, Feed.lexemes, hahead]

end CombinatorNet
