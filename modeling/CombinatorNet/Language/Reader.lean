import CombinatorNet.Language.Token

/-!
# Reading a token sequence

A reader takes tokens from a feed, one at a time, and yields a value or stops with an error. The
feed always shows the next token; a fault of the source text surfaces when it would become the next
token, that is as soon as the token before it is taken.

Repetition is by `Reader.many` and `Reader.commaList`. Their items must take a token in each round,
so that the number of tokens left bounds the rounds.

## Main definitions

* `Feed`, `Reader` — what is left to read, and computations on it
* `Reader.advance`, `Reader.expect`, `Reader.unexpected` — take a token, or complain about it
* `Reader.Shrinks`, `Reader.Keeps` — a reader that takes a token, and one that puts none back
* `Reader.many`, `Reader.commaList` — repetition

## Main results

* `Reader.Shrinks.bind`, `Reader.Keeps.bind` — both properties compose
-/

namespace CombinatorNet

/-- Whether a token is the given keyword. -/
def Token.isKeyword (t : Token) (word : String) : Bool :=
  t.kind = .identifier && t.text = word

/-- The tokens that are left to read. -/
structure Feed where
  /-- Where the token taken last ends. -/
  last : Position
  /-- The next token. -/
  current : Token
  /-- What follows the next token. -/
  ahead : List (Except SourceFault Token)

/-- The feed of a list of lexemes; a fault in the first place stops it at once. -/
def Feed.ofLexemes : List (Except SourceFault Token) → Except NetworkError Feed
  | [] => .ok ⟨.origin, .finish .origin, []⟩
  | .error fault :: _ => .error (.badSource fault)
  | .ok token :: ahead => .ok ⟨.origin, token, ahead⟩

/-- A computation that takes tokens from a feed. -/
abbrev Reader := StateT Feed (Except NetworkError)

namespace Reader

variable {α β : Type}

/-- The next token. -/
def current : Reader Token := return (← get).current

/-- Stop with a fault of the source text. -/
def fail (fault : SyntaxFault) (span : Span) : Reader α := throw (.badSource ⟨fault, span⟩)

/-- Stop because the next token is not what was expected. -/
def unexpected (what : String) : Reader α := do
  let token ← current
  fail (.expected what (if token.kind = .finish then none else some token.text)) token.span

/-- Take the next token. The end of input cannot be taken. -/
def advance : Reader Token := fun feed =>
  match feed.ahead with
  | [] => unexpected "a token" feed
  | .error fault :: _ => .error (.badSource fault)
  | .ok token :: ahead => .ok (feed.current, ⟨feed.current.span.stop, token, ahead⟩)

/-- The kind of the token behind the next one. -/
def peekKind : Reader TokenKind := fun feed =>
  match feed.ahead with
  | [] => .ok (.finish, feed)
  | .error fault :: _ => .error (.badSource fault)
  | .ok token :: _ => .ok (token.kind, feed)

/-- Take the next token if it has the given kind. -/
def expect (kind : TokenKind) (what : String) : Reader Token := do
  if (← current).kind = kind then advance else unexpected what

/-- Take the next token if it is the given keyword. -/
def expectKeyword (word : String) : Reader Token := do
  if (← current).isKeyword word then advance else unexpected s!"'{word}'"

/-- Take a name. -/
def name (what : String) : Reader String := return (← expect .identifier what).text

/-- The span from a place to the end of the token taken last. -/
def spanFrom (start : Position) : Reader Span := return ⟨start, (← get).last⟩

/-! ### Progress -/

/-- A reader that takes at least one token whenever it yields a value. -/
def Shrinks (p : Reader α) : Prop :=
  ∀ feed a feed', p feed = .ok (a, feed') → feed'.ahead.length < feed.ahead.length

/-- A reader that puts no token back. -/
def Keeps (p : Reader α) : Prop :=
  ∀ feed a feed', p feed = .ok (a, feed') → feed'.ahead.length ≤ feed.ahead.length

theorem Shrinks.keeps {p : Reader α} (h : Shrinks p) : Keeps p :=
  fun feed a feed' hp => Nat.le_of_lt (h feed a feed' hp)

theorem bind_eq_ok {p : Reader α} {f : α → Reader β} {feed feed' : Feed} {b : β} :
    (p >>= f) feed = .ok (b, feed') ↔
      ∃ a mid, p feed = .ok (a, mid) ∧ f a mid = .ok (b, feed') := by
  show (Except.bind (p feed) fun r => f r.1 r.2) = _ ↔ _
  cases h : p feed with
  | error e => simp [Except.bind]
  | ok r =>
    constructor
    · exact fun hf => ⟨r.1, r.2, rfl, hf⟩
    · rintro ⟨a, mid, hr, hf⟩
      cases hr
      exact hf

theorem Keeps.pure (a : α) : Keeps (pure a : Reader α) := by
  intro feed b feed' h
  cases h
  exact Nat.le_refl _

theorem Keeps.bind {p : Reader α} {f : α → Reader β} (hp : Keeps p) (hf : ∀ a, Keeps (f a)) :
    Keeps (p >>= f) := by
  intro feed b feed' h
  obtain ⟨a, mid, h₁, h₂⟩ := bind_eq_ok.1 h
  exact Nat.le_trans (hf a _ _ _ h₂) (hp _ _ _ h₁)

theorem Shrinks.bind {p : Reader α} {f : α → Reader β} (hp : Shrinks p) (hf : ∀ a, Keeps (f a)) :
    Shrinks (p >>= f) := by
  intro feed b feed' h
  obtain ⟨a, mid, h₁, h₂⟩ := bind_eq_ok.1 h
  exact Nat.lt_of_le_of_lt (hf a _ _ _ h₂) (hp _ _ _ h₁)

theorem Keeps.bind_shrinks {p : Reader α} {f : α → Reader β} (hp : Keeps p)
    (hf : ∀ a, Shrinks (f a)) : Shrinks (p >>= f) := by
  intro feed b feed' h
  obtain ⟨a, mid, h₁, h₂⟩ := bind_eq_ok.1 h
  exact Nat.lt_of_lt_of_le (hf a _ _ _ h₂) (hp _ _ _ h₁)

theorem Shrinks.ite {c : Prop} [Decidable c] {p q : Reader α} (hp : Shrinks p) (hq : Shrinks q) :
    Shrinks (if c then p else q) := by
  split <;> assumption

theorem Keeps.ite {c : Prop} [Decidable c] {p q : Reader α} (hp : Keeps p) (hq : Keeps q) :
    Keeps (if c then p else q) := by
  split <;> assumption

theorem keeps_current : Keeps current := by
  intro feed a feed' h
  cases h
  exact Nat.le_refl _

theorem shrinks_throw (e : NetworkError) : Shrinks (throw e : Reader α) := by
  intro feed a feed' h
  cases h

theorem shrinks_fail (fault : SyntaxFault) (span : Span) : Shrinks (fail fault span : Reader α) :=
  shrinks_throw _

theorem shrinks_unexpected (what : String) : Shrinks (unexpected what : Reader α) :=
  keeps_current.bind_shrinks fun _ => shrinks_fail _ _

theorem shrinks_advance : Shrinks advance := by
  intro feed a feed' h
  rw [advance] at h
  split at h
  · next hahead => exact shrinks_unexpected _ _ _ _ h
  · cases h
  · next hahead => cases h; rw [hahead]; exact Nat.lt_succ_self _

theorem keeps_peekKind : Keeps peekKind := by
  intro feed a feed' h
  rw [peekKind] at h
  split at h <;> cases h <;> exact Nat.le_refl _

theorem shrinks_expect (kind : TokenKind) (what : String) : Shrinks (expect kind what) :=
  keeps_current.bind_shrinks fun _ => shrinks_advance.ite (shrinks_unexpected _)

theorem shrinks_expectKeyword (word : String) : Shrinks (expectKeyword word) :=
  keeps_current.bind_shrinks fun _ => shrinks_advance.ite (shrinks_unexpected _)

theorem shrinks_name (what : String) : Shrinks (name what) :=
  (shrinks_expect _ _).bind fun _ => .pure _

theorem keeps_spanFrom (start : Position) : Keeps (spanFrom start) := by
  intro feed a feed' h
  cases h
  exact Nat.le_refl _

/-! ### Repetition -/

/-- Read items while the next token says so. An item is told the items before it. -/
def many (goesOn : TokenKind → Bool) (item : List α → Reader α) (h : ∀ seen, Shrinks (item seen))
    (seen : List α) (feed : Feed) : Except NetworkError (List α × Feed) :=
  if goesOn feed.current.kind then
    match _hitem : item seen feed with
    | .error e => .error e
    | .ok (a, feed') => many goesOn item h (seen ++ [a]) feed'
  else .ok (seen, feed)
termination_by feed.ahead.length
decreasing_by exact h _ _ _ _ _hitem

/-- Read items with commas between them up to the closing token, which is left; a comma may follow
the last item. An item is told the items before it. -/
def commaList (close : TokenKind) (item : List α → Reader α) (h : ∀ seen, Shrinks (item seen))
    (seen : List α) (feed : Feed) : Except NetworkError (List α × Feed) :=
  if feed.current.kind = close then .ok (seen, feed)
  else
    match _hitem : item seen feed with
    | .error e => .error e
    | .ok (a, feed') =>
      if feed'.current.kind = .comma then
        match _hcomma : advance feed' with
        | .error e => .error e
        | .ok (_, feed'') => commaList close item h (seen ++ [a]) feed''
      else .ok (seen ++ [a], feed')
termination_by feed.ahead.length
decreasing_by exact Nat.lt_trans (shrinks_advance _ _ _ _hcomma) (h _ _ _ _ _hitem)

theorem keeps_many (goesOn : TokenKind → Bool) (item : List α → Reader α)
    (h : ∀ seen, Shrinks (item seen)) (seen : List α) : Keeps (many goesOn item h seen) := by
  intro feed
  fun_induction many goesOn item h seen feed with
  | case1 => intro a feed' hp; cases hp
  | case2 seen feed _ b mid hitem ih =>
    intro a feed' hp
    exact Nat.le_trans (ih _ _ hp) (Nat.le_of_lt (h _ _ _ _ hitem))
  | case3 => intro a feed' hp; cases hp; exact Nat.le_refl _

theorem keeps_commaList (close : TokenKind) (item : List α → Reader α)
    (h : ∀ seen, Shrinks (item seen)) (seen : List α) : Keeps (commaList close item h seen) := by
  intro feed
  fun_induction commaList close item h seen feed with
  | case1 => intro a feed' hp; cases hp; exact Nat.le_refl _
  | case2 => intro a feed' hp; cases hp
  | case3 => intro a feed' hp; cases hp
  | case4 seen feed _ b mid hitem _ c mid' hcomma ih =>
    intro a feed' hp
    have h₁ := h _ _ _ _ hitem
    have h₂ := shrinks_advance _ _ _ hcomma
    have h₃ := ih _ _ hp
    omega
  | case5 seen feed _ b mid hitem _ =>
    intro a feed' hp
    cases hp
    exact Nat.le_of_lt (h _ _ _ _ hitem)

end Reader

end CombinatorNet
