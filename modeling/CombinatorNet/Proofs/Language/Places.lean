import CombinatorNet.Proofs.Language.Names
import Mathlib.Data.List.Induction

/-!
# Places in the source text

A place lies in a text if it is behind some of the characters of the text, and counts their bytes,
their lines and the characters of their last line. All lexemes of a text lie in it, in their order.
So do the spans that a parser makes of them, those of a program as well as those of an error.

## Main definitions

* `Position.Counts`, `Position.LiesIn`, `Span.LiesIn` — places and spans of a text
* `InOrder` — lexemes lie in a text, one behind the other
* `Reader.Places` — a reader only makes places that lie in the text
* `Program.PlacedIn`, `NetworkError.PlacedIn` — the spans of a program or an error lie in a text

## Main results

* `inOrder_scan` — the lexemes of a text lie in it
* `Reader.Places.bind_span` — a span that starts before a token that is taken can be made behind it
* `Program.placedIn_of_parse`, `Program.placedIn_of_parse_error` — what a parser makes of a text
  lies in it
-/

namespace CombinatorNet

variable {source : String}

/-! ### Positions -/

/-- The position behind some characters. -/
structure Position.Counts (p : Position) (before : String) : Prop where
  offset : p.offset = before.utf8ByteSize
  line : p.line = 1 + before.toList.count '\n'
  column : p.column = 1 + (before.toList.reverse.takeWhile (· ≠ '\n')).length

/-- The position is behind some of the characters of a text. -/
def Position.LiesIn (p : Position) (source : String) : Prop :=
  ∃ before after : String, source = before ++ after ∧ p.Counts before

/-- The span is a part of a text. -/
structure Span.LiesIn (s : Span) (source : String) : Prop where
  start : s.start.LiesIn source
  stop : s.stop.LiesIn source
  ordered : s.start.offset ≤ s.stop.offset

theorem Position.LiesIn.offset_le {p : Position} (h : p.LiesIn source) :
    p.offset ≤ source.utf8ByteSize := by
  obtain ⟨before, after, rfl, hp⟩ := h
  rw [hp.offset, String.utf8ByteSize_append]
  exact Nat.le_add_right _ _

/-- A character moves the position as it moves the counts. -/
theorem Position.Counts.next {p : Position} {cs : List Char} (h : p.Counts (String.ofList cs))
    (c : Char) : (p.next c).Counts (String.ofList (cs ++ [c])) := by
  obtain ⟨hoffset, hline, hcolumn⟩ := h
  rw [String.toList_ofList] at hline hcolumn
  have hbytes : (String.ofList (cs ++ [c])).utf8ByteSize =
      (String.ofList cs).utf8ByteSize + c.utf8Size := by
    rw [String.ofList_append, String.utf8ByteSize_append]
    simp
  refine ⟨by rw [offset_next, hoffset, hbytes], ?_, ?_⟩
  · rw [String.toList_ofList, List.count_append, Position.next]
    split
    · next hc => simp [hline, hc, Nat.add_assoc]
    · next hc => simp [hline, hc]
  · rw [String.toList_ofList, List.reverse_append, List.reverse_singleton, List.singleton_append,
      Position.next]
    split
    · next hc => simp [hc]
    · next hc => simp [hc, hcolumn, Nat.add_assoc]

theorem Position.counts_after (cs : List Char) :
    (Position.origin.after cs).Counts (String.ofList cs) := by
  induction cs using List.reverseRecOn with
  | nil => exact ⟨rfl, rfl, rfl⟩
  | append_singleton cs c ih =>
    rw [after_append]
    exact ih.next c

theorem Position.liesIn_after {before after : List Char} (h : source.toList = before ++ after) :
    (Position.origin.after before).LiesIn source := by
  refine ⟨String.ofList before, String.ofList after, ?_, counts_after before⟩
  rw [← String.ofList_append, ← h, String.ofList_toList]

theorem Position.offset_le_after (p : Position) (cs : List Char) :
    p.offset ≤ (p.after cs).offset := by
  rw [offset_after]
  exact Nat.le_add_right _ _

/-! ### Lexemes -/

/-- The place of a lexeme. -/
def placeOf : Except SourceFault Token → Span
  | .ok token => token.span
  | .error fault => fault.span

theorem placeOf_locate (l : Lexeme) (span : Span) : placeOf (l.locate span) = span := by
  rw [Lexeme.locate]
  cases l.reading <;> rfl

/-- The lexemes are parts of a text, each behind the one before it, and the first one behind a
position. -/
def InOrder (source : String) : Position → List (Except SourceFault Token) → Prop
  | _, [] => True
  | last, x :: rest => last.offset ≤ (placeOf x).start.offset ∧ (placeOf x).LiesIn source ∧
      InOrder source (placeOf x).stop rest

/-- The lexemes of the rest of a text lie in it, if they start where the characters before end. -/
theorem inOrder_scanFrom (p : Position) (cs : List Char) :
    ∀ before, source.toList = before ++ cs → p = .after .origin before →
      InOrder source p (scanFrom p cs) := by
  -- By induction on the scan, which goes on with the characters of each lexeme before it.
  fun_induction scanFrom p cs with
  | case1 p cs gap hsplit =>
    intro before hsource hp
    have hgap : gap = cs := by
      have happend := splitBlank_append cs
      rwa [hsplit, List.append_nil] at happend
    have hall : source.toList = before ++ cs ++ [] := hsource.trans (List.append_nil _).symm
    have hlies : (p.after gap).LiesIn source := by
      rw [hp, ← Position.after_append, hgap]
      exact Position.liesIn_after hall
    exact ⟨p.offset_le_after gap, ⟨hlies, hlies, Nat.le_refl _⟩, trivial⟩
  | case2 p cs gap c rest hsplit lexeme start stop ih =>
    intro before hsource hp
    have hcut : cs = gap ++ (lexeme.chars ++ lexeme.rest) := by
      rw [Lexeme.read_append, ← splitBlank_append cs, hsplit]
    have hstart : start = .after .origin (before ++ gap) := by
      rw [Position.after_append, ← hp]
    have hstop : stop = .after .origin (before ++ gap ++ lexeme.chars) := by
      rw [Position.after_append, ← hstart]
    rw [hcut, ← List.append_assoc] at hsource
    have hsource' := hsource
    rw [← List.append_assoc] at hsource'
    rw [InOrder, placeOf_locate]
    refine ⟨p.offset_le_after gap, ⟨?_, ?_, start.offset_le_after lexeme.chars⟩,
      ih _ hsource' hstop⟩
    · rw [hstart]
      exact Position.liesIn_after hsource
    · rw [hstop]
      exact Position.liesIn_after hsource'

/-- The lexemes of a text lie in it, in their order. -/
theorem inOrder_scan (source : String) : InOrder source .origin (scan source) :=
  inOrder_scanFrom .origin source.toList [] rfl rfl

/-! ### Readers -/

/-- The tokens that are left lie in a text, in their order. -/
structure Feed.Placed (source : String) (feed : Feed) : Prop where
  last : feed.last.LiesIn source
  inOrder : InOrder source feed.last (.ok feed.current :: feed.ahead)

/-- An error has a place, and this lies in a text. -/
def NetworkError.PlacedIn (source : String) (e : NetworkError) : Prop :=
  ∃ span, e.location = some span ∧ span.LiesIn source

namespace Feed

variable {feed mid feed' : Feed}

/-- No token has been taken from the feed, or at least the next one. -/
def Reaches (feed feed' : Feed) : Prop :=
  feed' = feed ∨ feed.current.span.stop.offset ≤ feed'.last.offset

theorem Placed.current (h : feed.Placed source) : feed.current.span.LiesIn source := h.inOrder.2.1

theorem Placed.last_le (h : feed.Placed source) :
    feed.last.offset ≤ feed.current.span.start.offset := h.inOrder.1

/-- The next token is further on, the more tokens are taken. -/
theorem Reaches.start_le (h : feed.Reaches feed') (hfeed : feed.Placed source)
    (hfeed' : feed'.Placed source) :
    feed.current.span.start.offset ≤ feed'.current.span.start.offset := by
  obtain rfl | hstop := h
  · exact Nat.le_refl _
  · exact Nat.le_trans hfeed.current.ordered (Nat.le_trans hstop hfeed'.last_le)

theorem Reaches.trans (h : feed.Reaches mid) (h' : mid.Reaches feed') (hmid : mid.Placed source) :
    feed.Reaches feed' := by
  obtain rfl | hstop := h
  · exact h'
  · obtain rfl | hstop' := h'
    · exact .inr hstop
    · exact .inr (Nat.le_trans hstop (Nat.le_trans hmid.last_le
        (Nat.le_trans hmid.current.ordered hstop')))

/-- What comes of reading from a feed: an error that lies in the text, or a value with a property
and the tokens that are left. -/
def LeadsTo {α : Type} (source : String) (Q : α → Prop) (feed : Feed) :
    Except NetworkError (α × Feed) → Prop
  | .error e => e.PlacedIn source
  | .ok (a, feed') => feed'.Placed source ∧ feed.Reaches feed' ∧ Q a

theorem LeadsTo.trans {α : Type} {Q : α → Prop} {r : Except NetworkError (α × Feed)}
    (h : feed.Reaches mid) (hmid : mid.Placed source) (hr : mid.LeadsTo source Q r) :
    feed.LeadsTo source Q r := by
  cases r with
  | error e => exact hr
  | ok r => exact ⟨hr.1, h.trans hr.2.1 hmid, hr.2.2⟩

end Feed

namespace Reader

variable {α β : Type} {mark : Nat} {p : Reader α} {Q : α → Prop} {R : β → Prop}

/-- Whatever the tokens of a text from a mark on, the reader makes only places that lie in the text,
and values with a property. -/
def Places (source : String) (mark : Nat) (p : Reader α) (Q : α → Prop) : Prop :=
  ∀ feed : Feed, feed.Placed source → mark ≤ feed.current.span.start.offset →
    feed.LeadsTo source Q (p feed)

theorem Places.pure {a : α} (h : Q a) : Places source mark (pure a : Reader α) Q :=
  fun _ hfeed _ => ⟨hfeed, .inl rfl, h⟩

theorem Places.bind {f : α → Reader β} (hp : Places source mark p Q)
    (hf : ∀ a, Q a → Places source mark (f a) R) : Places source mark (p >>= f) R := by
  intro feed hfeed hmark
  have hleads := hp feed hfeed hmark
  show feed.LeadsTo source R (Except.bind (p feed) fun r => f r.1 r.2)
  generalize p feed = r at hleads
  obtain e | ⟨a, mid⟩ := r
  · exact hleads
  · obtain ⟨hmid, hreaches, ha⟩ := hleads
    exact (hf a ha mid hmid (Nat.le_trans hmark (hreaches.start_le hfeed hmid))).trans hreaches hmid

theorem Places.ite {c : Prop} [Decidable c] {q : Reader α} (hp : Places source mark p Q)
    (hq : Places source mark q Q) : Places source mark (if c then p else q) Q := by
  split <;> assumption

/-- From the next token on, its own start can be the mark. -/
theorem places_current_bind {f : Token → Reader β}
    (hf : ∀ t : Token, t.span.LiesIn source → mark ≤ t.span.start.offset →
      Places source t.span.start.offset (f t) R) :
    Places source mark (current >>= f) R :=
  fun feed hfeed hmark => hf feed.current hfeed.current hmark feed hfeed (Nat.le_refl _)

theorem places_throw {e : NetworkError} (h : e.PlacedIn source) :
    Places source mark (throw e : Reader α) Q :=
  fun _ _ _ => h

theorem places_fail (fault : SyntaxFault) {span : Span} (h : span.LiesIn source) :
    Places source mark (fail fault span : Reader α) Q :=
  places_throw ⟨span, rfl, h⟩

theorem places_unexpected (what : String) : Places source mark (unexpected what : Reader α) Q :=
  places_current_bind fun _ ht _ => places_fail _ ht

theorem places_advance : Places source mark advance fun t => t.span.LiesIn source := by
  intro feed hfeed hmark
  have hno : Places source mark (unexpected "a token") fun t : Token => t.span.LiesIn source :=
    places_unexpected _
  have hahead := hfeed.inOrder.2.2
  rw [advance]
  split
  · exact hno feed hfeed hmark
  · next fault rest heq =>
    rw [heq] at hahead
    exact ⟨fault.span, rfl, hahead.2.1⟩
  · next token rest heq =>
    rw [heq] at hahead
    exact ⟨⟨hfeed.current.stop, hahead⟩, .inr (Nat.le_refl _), hfeed.current⟩

theorem places_peekKind : Places source mark peekKind fun _ => True := by
  intro feed hfeed _
  have hahead := hfeed.inOrder.2.2
  rw [peekKind]
  split
  · exact ⟨hfeed, .inl rfl, trivial⟩
  · next fault rest heq =>
    rw [heq] at hahead
    exact ⟨fault.span, rfl, hahead.2.1⟩
  · exact ⟨hfeed, .inl rfl, trivial⟩

theorem places_expect (kind : TokenKind) (what : String) :
    Places source mark (expect kind what) fun t => t.span.LiesIn source :=
  places_current_bind fun _ _ _ => places_advance.ite (places_unexpected _)

theorem places_expectKeyword (word : String) :
    Places source mark (expectKeyword word) fun t => t.span.LiesIn source :=
  places_current_bind fun _ _ _ => places_advance.ite (places_unexpected _)

theorem places_name (what : String) : Places source mark (name what) fun _ => True :=
  (places_expect _ _).bind fun _ _ => .pure trivial

theorem eq_current_of_expect {kind : TokenKind} {what : String} {feed feed' : Feed} {t : Token}
    (h : expect kind what feed = .ok (t, feed')) : t = feed.current := by
  obtain ⟨token, mid, hcurrent, h⟩ := bind_eq_ok.mp h
  cases hcurrent
  split at h
  · exact eq_current_of_advance h
  · cases h

/-- Behind a token that is taken, its start can be the mark. -/
theorem places_expect_bind {kind : TokenKind} {what : String} {f : Token → Reader β}
    (hf : ∀ t : Token, t.span.LiesIn source → mark ≤ t.span.start.offset →
      Places source t.span.start.offset (f t) R) :
    Places source mark (expect kind what >>= f) R := by
  intro feed hfeed hmark
  have hleads := places_expect kind what feed hfeed hmark
  show feed.LeadsTo source R (Except.bind (expect kind what feed) fun r => f r.1 r.2)
  cases htaken : expect kind what feed with
  | error e =>
    rw [htaken] at hleads
    exact hleads
  | ok r =>
    rw [htaken] at hleads
    obtain ⟨hmid, hreaches, -⟩ := hleads
    have hstart := hreaches.start_le hfeed hmid
    have ht := eq_current_of_expect htaken
    rw [← ht] at hstart
    have hrest := hf r.1 (ht ▸ hfeed.current) (ht ▸ hmark) r.2 hmid hstart
    exact hrest.trans hreaches hmid

/-- A span that starts at a mark can be made behind a token that is taken. -/
theorem Places.bind_span {start : Position} {f : α → Span → Reader β}
    (hp : Places source mark p Q) (hshrinks : Shrinks p) (hstart : start.LiesIn source)
    (hmark : start.offset ≤ mark)
    (hf : ∀ a span, Q a → span.LiesIn source → Places source mark (f a span) R) :
    Places source mark (p >>= fun a => spanFrom start >>= f a) R := by
  intro feed hfeed hfeedmark
  have hleads := hp feed hfeed hfeedmark
  have htaken := hshrinks feed
  show feed.LeadsTo source R
    (Except.bind (p feed) fun r => f r.1 ⟨start, r.2.last⟩ r.2)
  generalize p feed = r at hleads htaken
  obtain e | ⟨a, mid⟩ := r
  · exact hleads
  · obtain ⟨hmid, hreaches, ha⟩ := hleads
    have hstop : start.offset ≤ mid.last.offset := by
      obtain rfl | hstop := hreaches
      · exact absurd (htaken a mid rfl) (Nat.lt_irrefl _)
      · have hordered := hfeed.current.ordered
        omega
    have hrest := hf a ⟨start, mid.last⟩ ha ⟨hstart, hmid.last, hstop⟩ mid hmid
      (Nat.le_trans hfeedmark (hreaches.start_le hfeed hmid))
    exact hrest.trans hreaches hmid

theorem places_many {goesOn : TokenKind → Bool} {item : List α → Reader α}
    {h : ∀ seen, Shrinks (item seen)} (hitem : ∀ seen, Places source mark (item seen) Q)
    {seen : List α} (hseen : ∀ a ∈ seen, Q a) :
    Places source mark (many goesOn item h seen) fun as => ∀ a ∈ as, Q a := by
  intro feed
  fun_induction many goesOn item h seen feed with
  | case1 seen feed _ e hitem' =>
    intro hfeed hmark
    have hleads := hitem seen feed hfeed hmark
    rwa [hitem'] at hleads
  | case2 seen feed _ b mid hitem' ih =>
    intro hfeed hmark
    have hleads := hitem seen feed hfeed hmark
    rw [hitem'] at hleads
    obtain ⟨hmid, hreaches, hb⟩ := hleads
    have hseen' : ∀ a ∈ seen ++ [b], Q a :=
      List.forall_mem_append.mpr ⟨hseen, List.forall_mem_singleton.mpr hb⟩
    have hmark' := Nat.le_trans hmark (hreaches.start_le hfeed hmid)
    exact (ih hseen' hmid hmark').trans hreaches hmid
  | case3 =>
    intro hfeed _
    exact ⟨hfeed, .inl rfl, hseen⟩

theorem places_commaList {close : TokenKind} {item : List α → Reader α}
    {h : ∀ seen, Shrinks (item seen)} (hitem : ∀ seen, Places source mark (item seen) Q)
    {seen : List α} (hseen : ∀ a ∈ seen, Q a) :
    Places source mark (commaList close item h seen) fun as => ∀ a ∈ as, Q a := by
  intro feed
  fun_induction commaList close item h seen feed with
  | case1 =>
    intro hfeed _
    exact ⟨hfeed, .inl rfl, hseen⟩
  | case2 seen feed _ e hitem' =>
    intro hfeed hmark
    have hleads := hitem seen feed hfeed hmark
    rwa [hitem'] at hleads
  | case3 seen feed _ b mid hitem' _ e hcomma =>
    intro hfeed hmark
    have hleads := hitem seen feed hfeed hmark
    rw [hitem'] at hleads
    obtain ⟨hmid, hreaches, -⟩ := hleads
    have hleads := places_advance mid hmid (Nat.le_trans hmark (hreaches.start_le hfeed hmid))
    rwa [hcomma] at hleads
  | case4 seen feed _ b mid hitem' _ t mid' hcomma ih =>
    intro hfeed hmark
    have hleads := hitem seen feed hfeed hmark
    rw [hitem'] at hleads
    obtain ⟨hmid, hreaches, hb⟩ := hleads
    have hmark' := Nat.le_trans hmark (hreaches.start_le hfeed hmid)
    have hleads := places_advance mid hmid hmark'
    rw [hcomma] at hleads
    obtain ⟨hmid', hreaches', -⟩ := hleads
    have hseen' : ∀ a ∈ seen ++ [b], Q a :=
      List.forall_mem_append.mpr ⟨hseen, List.forall_mem_singleton.mpr hb⟩
    have hrest := ih hseen' hmid' (Nat.le_trans hmark' (hreaches'.start_le hmid hmid'))
    exact hrest.trans (hreaches.trans hreaches' hmid) hmid'
  | case5 seen feed _ b mid hitem' _ =>
    intro hfeed hmark
    have hleads := hitem seen feed hfeed hmark
    rw [hitem'] at hleads
    obtain ⟨hmid, hreaches, hb⟩ := hleads
    exact ⟨hmid, hreaches,
      List.forall_mem_append.mpr ⟨hseen, List.forall_mem_singleton.mpr hb⟩⟩

end Reader

/-! ### The grammar -/

open Reader

/-- The spans in a request lie in a text: that of an expression, or those of bindings. -/
def Request.PlacedIn (source : String) : Request → Prop
  | binary _ expr _ => expr.span.LiesIn source
  | instantiate _ bindings => ∀ b ∈ bindings, b.span.LiesIn source
  | _ => True

/-- The spans in a statement lie in a text. -/
structure Statement.PlacedIn (source : String) (s : Statement) : Prop where
  request : s.request.PlacedIn source
  span : s.span.LiesIn source

/-- The spans in a template lie in a text. -/
structure Template.PlacedIn (source : String) (t : Template) : Prop where
  body : ∀ s ∈ t.body, s.PlacedIn source
  span : t.span.LiesIn source

/-- There is a template, and all spans in the templates lie in a text. -/
structure Program.PlacedIn (source : String) (p : Program) : Prop where
  ne_nil : p.templates ≠ []
  templates : ∀ t ∈ p.templates, t.PlacedIn source

variable {mark : Nat}

theorem places_readDigits (negative : Bool) {start : Span} (hstart : start.LiesIn source)
    (hmark : start.start.offset ≤ mark) :
    Places source mark (readDigits negative start) fun _ => True :=
  places_expect_bind fun t ht htmark =>
    .ite (.pure trivial) (places_fail _ ⟨hstart.start, ht.stop, by
      have hordered := ht.ordered
      show start.start.offset ≤ t.span.stop.offset
      omega⟩)

theorem places_readNumber : Places source mark readNumber fun _ => True :=
  places_current_bind fun _ ht _ =>
    .ite (places_advance.bind fun _ _ => places_readDigits _ ht (Nat.le_refl _))
      (places_readDigits _ ht (Nat.le_refl _))

theorem places_readOperand : Places source mark readOperand fun _ => True :=
  places_current_bind fun _ _ _ => by
    split
    · exact places_advance.bind fun _ _ => .pure trivial
    · exact places_readNumber.bind fun _ _ => .pure trivial
    · exact places_readNumber.bind fun _ _ => .pure trivial
    · exact places_unexpected _

theorem places_readNextWire (seen : List String) :
    Places source mark (readNextWire seen) fun _ => True :=
  places_advance.bind fun _ _ => places_name _

theorem places_readWires : Places source mark readWires fun _ => True :=
  places_current_bind fun _ _ _ =>
    .ite
      (places_advance.bind fun _ _ => (places_name _).bind fun _ _ =>
        (places_many places_readNextWire fun _ _ => trivial).bind fun _ _ =>
          (places_expect _ _).bind fun _ _ => .pure trivial)
      ((places_name _).bind fun _ _ => .pure trivial)

theorem places_readValue (seen : List (String × Int)) :
    Places source mark (readValue seen) fun _ => True :=
  places_expect_bind fun _ ht _ =>
    .ite (places_fail _ ht) ((places_expect _ _).bind fun _ _ =>
      places_readNumber.bind fun _ _ => .pure trivial)

theorem places_readConstant (drive : Drive) :
    Places source mark (readConstant drive) (Request.PlacedIn source) :=
  (places_expect _ _).bind fun _ _ =>
    (places_commaList places_readValue (List.forall_mem_nil _)).bind fun _ _ =>
      (places_expect _ _).bind fun _ _ => (places_expect _ _).bind fun _ _ =>
        places_readWires.bind fun _ _ => .pure trivial

theorem places_readMode (op : Operator) : Places source mark (readMode op) fun _ => True :=
  .ite
    ((places_expectKeyword _).bind fun _ _ => places_current_bind fun _ _ _ =>
      .ite
        (places_advance.bind fun _ ht =>
          .ite ((places_expectKeyword _).bind fun _ _ => .pure trivial) (places_fail _ ht))
        (.pure trivial))
    ((places_expectKeyword _).bind fun _ _ => .pure trivial)

theorem places_readOperator : Places source mark readOperator fun _ => True :=
  places_current_bind fun _ ht _ =>
    .ite
      (places_advance.bind fun _ _ => by
        split
        · exact .pure trivial
        · exact places_fail _ ht)
      (places_unexpected _)

/-- The span of an expression ends behind its output. -/
theorem places_readExpr : Places source mark readExpr fun e => e.span.LiesIn source :=
  places_current_bind fun _ ht _ => places_readOperand.bind fun _ _ =>
    places_readOperator.bind fun _ _ => places_readOperand.bind fun _ _ =>
      (places_readMode _).bind fun _ _ =>
        (places_name _).bind_span (shrinks_name _) ht.start (Nat.le_refl _)
          fun _ _ _ hspan => .pure hspan

theorem places_atDisplay : Places source mark atDisplay fun _ => True :=
  places_current_bind fun _ _ _ =>
    .ite (places_peekKind.bind fun _ _ => .pure trivial) (.pure trivial)

theorem places_readWired : Places source mark readWired (Request.PlacedIn source) :=
  places_readWires.bind fun _ _ => (places_expect _ _).bind fun _ _ =>
    places_atDisplay.bind fun _ _ =>
      .ite
        (places_advance.bind fun _ _ => (places_name _).bind fun _ _ => .pure trivial)
        (places_readExpr.bind fun _ hexpr => (places_expect _ _).bind fun _ _ =>
          places_readWires.bind fun _ _ => .pure hexpr)

/-- The span of a binding ends with the name that is passed. -/
theorem places_readBinding (seen : List Binding) :
    Places source mark (readBinding seen) fun b => b.span.LiesIn source :=
  places_expect_bind fun formal hformal _ => (places_expect _ _).bind fun _ _ =>
    places_expect_bind fun actual hactual hmark => .pure ⟨hformal.start, hactual.stop, by
      have hordered := hactual.ordered
      show formal.span.start.offset ≤ actual.span.stop.offset
      omega⟩

theorem places_readInstance : Places source mark readInstance (Request.PlacedIn source) :=
  (places_name _).bind fun _ _ => (places_expect _ _).bind fun _ _ =>
    (places_commaList places_readBinding (List.forall_mem_nil _)).bind fun _ hbindings =>
      (places_expect _ _).bind fun _ _ => .pure hbindings

theorem places_readNamed (form : NamedForm) :
    Places source mark (readNamed form) (Request.PlacedIn source) := by
  cases form with
  | button drive => exact places_advance.bind fun _ _ => places_readConstant _
  | paint color =>
    exact places_advance.bind fun _ _ => places_readWires.bind fun _ _ => .pure trivial
  | unit => exact places_readInstance
  | wired => exact places_readWired

theorem places_readRequest : Places source mark readRequest (Request.PlacedIn source) :=
  places_current_bind fun _ _ _ => by
    split
    · exact places_advance.bind fun _ _ => .pure trivial
    · exact places_readConstant _
    · exact places_readWired
    · exact places_peekKind.bind fun _ _ => places_readNamed _
    · exact places_unexpected _

theorem places_readStatement : Places source mark readStatement (Statement.PlacedIn source) :=
  places_current_bind fun _ ht _ =>
    places_readRequest.bind_span shrinks_readRequest ht.start (Nat.le_refl _)
      fun _ _ hr hspan => .pure ⟨hr, hspan⟩

theorem places_readParam (seen : List String) :
    Places source mark (readParam seen) fun _ => True :=
  places_expect_bind fun _ ht _ => .ite (places_fail _ ht) (.pure trivial)

theorem places_readBodyStatement (seen : List Statement) :
    Places source mark (readBodyStatement seen) (Statement.PlacedIn source) :=
  places_current_bind fun _ _ _ => .ite (places_unexpected _) places_readStatement

theorem places_readBody :
    Places source mark readBody fun body => ∀ s ∈ body, s.PlacedIn source :=
  (places_expect _ _).bind fun _ _ =>
    (places_many places_readBodyStatement (List.forall_mem_nil _)).bind fun _ hbody =>
      places_advance.bind fun _ _ => .pure hbody

theorem places_readTemplate (seen : List Template) :
    Places source mark (readTemplate seen) (Template.PlacedIn source) :=
  places_current_bind fun _ ht _ => (places_name _).bind fun _ _ =>
    (places_expect _ _).bind fun _ _ =>
      (places_commaList places_readParam (List.forall_mem_nil _)).bind fun _ _ =>
        (places_expect _ _).bind_span (shrinks_expect _ _) ht.start (Nat.le_refl _)
          fun _ span _ hspan => places_readBody.bind fun _ hbody =>
            .ite (places_throw ⟨span, rfl, hspan⟩) (.pure ⟨hbody, hspan⟩)

theorem places_read : Places source mark Program.read (Program.PlacedIn source) :=
  (places_many places_readTemplate (List.forall_mem_nil _)).bind fun templates htemplates => by
    split
    · exact places_current_bind fun _ ht _ => places_fail _ ht
    · next hne => exact .pure ⟨by simpa using hne, htemplates⟩

/-! ### Texts -/

theorem Position.liesIn_origin (source : String) : Position.origin.LiesIn source :=
  liesIn_after (List.nil_append source.toList).symm

/-- A program that is parsed from lexemes in a text lies in the text, and so does an error. -/
theorem Program.leadsTo_ofLexemes {lexemes : List (Except SourceFault Token)}
    (h : InOrder source .origin lexemes) :
    (∀ e, ofLexemes lexemes = .error e → e.PlacedIn source) ∧
      ∀ p, ofLexemes lexemes = .ok p → p.PlacedIn source := by
  have horigin := Position.liesIn_origin source
  -- A feed that is placed leads to a program that is placed, or to an error.
  have hread : ∀ feed : Feed, feed.Placed source →
      (∀ e, (Program.read feed).map (·.1) = .error e → e.PlacedIn source) ∧
        ∀ p, (Program.read feed).map (·.1) = .ok p → p.PlacedIn source := by
    intro feed hfeed
    have hleads : feed.LeadsTo source (Program.PlacedIn source) (Program.read feed) :=
      places_read feed hfeed (Nat.zero_le _)
    generalize Program.read feed = result at hleads
    obtain e | ⟨p, feed'⟩ := result
    · exact ⟨fun e' he => by cases he; exact hleads, nofun⟩
    · exact ⟨nofun, fun p' hp => by cases hp; exact hleads.2.2⟩
  obtain _ | ⟨fault | token, ahead⟩ := lexemes
  · exact hread _ ⟨horigin, Nat.le_refl _, ⟨horigin, horigin, Nat.le_refl _⟩, trivial⟩
  · exact ⟨fun e he => by cases he; exact ⟨fault.span, rfl, h.2.1⟩, nofun⟩
  · exact hread _ ⟨horigin, h⟩

/-- The spans in a parsed program lie in its text. -/
theorem Program.placedIn_of_parse {p : Program} (h : parse source = .ok p) : p.PlacedIn source :=
  (leadsTo_ofLexemes (inOrder_scan source)).2 p h

/-- A text that cannot be parsed is blamed at a place in it. -/
theorem Program.placedIn_of_parse_error {e : NetworkError} (h : parse source = .error e) :
    e.PlacedIn source :=
  (leadsTo_ofLexemes (inOrder_scan source)).1 e h

end CombinatorNet
