import CombinatorNet.Proofs.Language.Grammar

/-!
# Readers of phrases

A reader reads a phrase if it accepts the words of the phrase, whatever follows them, takes nothing
else, and yields what they stand for. Readers of phrases compose: each part of a phrase is read
where the part before it ends.

Some readers look at the word behind the phrase, as they could go on with it, so the condition on
what follows is part of the notion.

## Main definitions

* `Feed.Shows` — the words that a feed has before it becomes another one
* `Reader.ReadsBefore`, `Reader.Reads` — a reader of a phrase
* `AllFresh` — items none of which is refused because of those before it

## Main results

* `Reader.ReadsBefore.bind` — readers compose
* `Reader.ReadsBefore.look`, `Reader.ReadsBefore.peek` — the next words decide what is read
* `Reader.reads_many`, `Reader.reads_commaList` — repetition
-/

namespace CombinatorNet

/-! ### Feeds -/

namespace Feed

variable {feed mid feed' : Feed} {w : Word} {u v ws : List Word}

/-- All tokens and faults that are left, the next one first. -/
def lexemes (feed : Feed) : List (Except SourceFault Token) := .ok feed.current :: feed.ahead

/-- The next tokens of a feed have the given words, and `feed'` is left behind them. -/
def Shows (feed : Feed) (ws : List Word) (feed' : Feed) : Prop :=
  ∃ tokens : List Token, tokens.map Token.word = ws ∧
    feed.lexemes = tokens.map .ok ++ feed'.lexemes

/-- The words that are left are as the scanner makes them. -/
def Lexed (feed : Feed) : Prop :=
  ∀ t, .ok t ∈ feed.lexemes → t.word = .sign .finish ∨ t.word.Lexed

theorem Shows.nil (h : feed.lexemes = feed'.lexemes) : feed.Shows [] feed' := ⟨[], rfl, h⟩

theorem Shows.single {t : Token} (h : feed.lexemes = .ok t :: feed'.lexemes) :
    feed.Shows [t.word] feed' :=
  ⟨[t], rfl, h⟩

theorem Shows.trans (h : feed.Shows u mid) (h' : mid.Shows v feed') :
    feed.Shows (u ++ v) feed' := by
  obtain ⟨ts, rfl, hts⟩ := h
  obtain ⟨ts', rfl, hts'⟩ := h'
  refine ⟨ts ++ ts', List.map_append, ?_⟩
  rw [hts, hts', List.map_append, List.append_assoc]

theorem Shows.of_lexemes_eq (h : feed.Shows ws feed') (heq : mid.lexemes = feed.lexemes) :
    mid.Shows ws feed' := by
  obtain ⟨ts, hts, hlexemes⟩ := h
  exact ⟨ts, hts, heq.trans hlexemes⟩

theorem lexemes_of_shows_nil (h : feed.Shows [] feed') : feed.lexemes = feed'.lexemes := by
  obtain ⟨ts, hts, hlexemes⟩ := h
  obtain rfl := List.map_eq_nil_iff.mp hts
  exact hlexemes

/-- Words can be taken one after the other. -/
theorem Shows.split (h : feed.Shows (u ++ v) feed') :
    ∃ mid, feed.Shows u mid ∧ mid.Shows v feed' := by
  obtain ⟨ts, hts, hlexemes⟩ := h
  obtain ⟨tsu, tsv, rfl, rfl, rfl⟩ := List.map_eq_append_iff.mp hts
  -- Behind the first words there is a token, be it of the further words or that of `feed'`.
  obtain ⟨mid, hmid⟩ : ∃ mid : Feed, mid.lexemes = tsv.map .ok ++ feed'.lexemes := by
    cases tsv with
    | nil => exact ⟨feed', rfl⟩
    | cons t tsv => exact ⟨⟨.origin, t, tsv.map .ok ++ feed'.lexemes⟩, rfl⟩
  refine ⟨mid, ⟨tsu, rfl, ?_⟩, ⟨tsv, rfl, hmid⟩⟩
  rw [hlexemes, hmid, List.map_append, List.append_assoc]

theorem Shows.lexed (h : feed.Shows ws feed') (hfeed : feed.Lexed) : feed'.Lexed := by
  obtain ⟨ts, -, hlexemes⟩ := h
  intro t ht
  exact hfeed t (hlexemes ▸ List.mem_append_right _ ht)

theorem current_eq (h : feed.lexemes = feed'.lexemes) : feed.current = feed'.current :=
  Except.ok.inj (List.cons.inj h).1

/-- The first word is that of the next token. -/
theorem Shows.current (h : feed.Shows (w :: ws) feed') : feed.current.word = w := by
  obtain ⟨_ | ⟨t, ts⟩, hts, hlexemes⟩ := h
  · cases hts
  · rw [Except.ok.inj (List.cons.inj hlexemes).1]
    exact (List.cons.inj hts).1

theorem Shows.kind (h : feed.Shows (w :: ws) feed') : feed.current.kind = w.1 :=
  congrArg Prod.fst h.current

theorem Lexed.current (h : feed.Lexed) :
    feed.current.word = .sign .finish ∨ feed.current.word.Lexed :=
  h _ List.mem_cons_self

end Feed

/-- Signs have the text of their kind, and `=` is no operator. Words that are made by the scanner
are like this, and so are those of the grammar, whatever the names and numbers in it. -/
structure Word.Plain (w : Word) : Prop where
  sign : w.1.isSign = true → w = .sign w.1
  operator : w.1 = .operator → w.2 ≠ "="

namespace Word

theorem plain_name (s : String) : (name s).Plain := ⟨nofun, nofun⟩

theorem plain_digits (s : String) : (digits s).Plain := ⟨nofun, nofun⟩

theorem plain_sign (kind : TokenKind) : (Word.sign kind).Plain := by
  refine ⟨fun _ => rfl, ?_⟩
  rintro rfl
  decide

theorem plain_ofOperator (op : Operator) : (ofOperator op).Plain := by
  cases op <;> exact ⟨by decide, by decide⟩

end Word

theorem Feed.Lexed.plain {feed : Feed} (h : feed.Lexed) : feed.current.word.Plain where
  sign := Word.eq_sign h.current
  operator := by
    intro hkind
    obtain hfinish | hlexed := h.current
    · rw [hfinish] at hkind
      cases hkind
    · rw [Word.Lexed, hkind] at hlexed
      obtain ⟨op, hne, hsymbol⟩ := hlexed
      rw [← hsymbol]
      cases op <;> first | exact absurd rfl hne | decide

/-- A token is a keyword if its word is. -/
theorem Token.isKeyword_iff {t : Token} {word : String} :
    t.isKeyword word = true ↔ t.word = .name word := by
  rw [Token.isKeyword, Bool.and_eq_true, decide_eq_true_iff, decide_eq_true_iff]
  exact ⟨fun h => Prod.ext h.1 h.2, fun h => ⟨congrArg Prod.fst h, congrArg Prod.snd h⟩⟩

namespace Reader

variable {α β γ δ : Type} {F G : TokenKind → Prop} {p : Reader α} {view : α → β}
  {R S : List Word → β → Prop} {feed feed' : Feed}

/-- A reader that reads phrases of a form, and yields what they stand for as far as `view` shows it.
What is behind a phrase has to satisfy the condition on what follows. -/
structure ReadsBefore (F : TokenKind → Prop) (p : Reader α) (view : α → β)
    (Form : List Word → β → Prop) : Prop where
  /-- What the reader takes is a phrase, which stands for what it yields. -/
  sound : ∀ {feed feed' a}, feed.Lexed → p feed = .ok (a, feed') →
    ∃ ws, feed.Shows ws feed' ∧ Form ws (view a)
  /-- The reader takes every phrase, and nothing more. -/
  complete : ∀ {feed feed' ws b}, feed.Shows ws feed' → Form ws b → F feed'.current.kind →
    ∃ a mid, p feed = .ok (a, mid) ∧ mid.lexemes = feed'.lexemes ∧ view a = b

/-- A reader of phrases that does not care what follows. -/
abbrev Reads (p : Reader α) (view : α → β) (Form : List Word → β → Prop) : Prop :=
  ReadsBefore (fun _ => True) p view Form

theorem ReadsBefore.congr (h : ReadsBefore F p view R) (heq : ∀ ws b, R ws b ↔ S ws b) :
    ReadsBefore F p view S := by
  obtain rfl : R = S := funext fun ws => funext fun b => propext (heq ws b)
  exact h

theorem Reads.before (h : Reads p view R) : ReadsBefore F p view R where
  sound := h.sound
  complete hshows hform _ := h.complete hshows hform trivial

/-! ### Composition -/

theorem reads_pure (a : α) : Reads (pure a : Reader α) view fun ws b => ws = [] ∧ b = view a where
  sound := by
    intro feed feed' a' _ h
    cases h
    exact ⟨[], .nil rfl, rfl, rfl⟩
  complete := by
    rintro feed feed' ws b hshows ⟨rfl, rfl⟩ -
    exact ⟨a, feed, rfl, Feed.lexemes_of_shows_nil hshows, rfl⟩

theorem reads_throw (e : NetworkError) : Reads (throw e : Reader α) view fun _ _ => False where
  sound := by
    intro feed feed' a _ h
    cases h
  complete := by
    intro feed feed' ws b _ h
    exact h.elim

theorem reads_fail (fault : SyntaxFault) (span : Span) :
    Reads (fail fault span : Reader α) view fun _ _ => False :=
  reads_throw _

theorem reads_unexpected (what : String) :
    Reads (unexpected what : Reader α) view fun _ _ => False where
  sound := by
    intro feed feed' a _ h
    obtain ⟨token, mid, -, h⟩ := bind_eq_ok.mp h
    cases h
  complete := by
    intro feed feed' ws b _ h
    exact h.elim

section Bind

variable {f : α → Reader γ} {o : γ → δ} {T : β → List Word → δ → Prop}

/-- Readers compose, if what the second one reads may follow what the first one reads. -/
theorem ReadsBefore.bind_of_follow (hp : ReadsBefore F p view R)
    (hf : ∀ a, ReadsBefore G (f a) o (T (view a)))
    (hfollow : ∀ {b v c mid feed'}, T b v c → Feed.Shows mid v feed' → G feed'.current.kind →
      F mid.current.kind) :
    ReadsBefore G (p >>= f) o fun ws c => ∃ u v b, ws = u ++ v ∧ R u b ∧ T b v c where
  sound := by
    intro feed feed' c hfeed h
    obtain ⟨a, mid, h₁, h₂⟩ := bind_eq_ok.mp h
    obtain ⟨u, hu, hR⟩ := hp.sound hfeed h₁
    obtain ⟨v, hv, hT⟩ := (hf a).sound (hu.lexed hfeed) h₂
    exact ⟨u ++ v, hu.trans hv, u, v, view a, rfl, hR, hT⟩
  complete := by
    rintro feed feed' ws c hshows ⟨u, v, b, rfl, hR, hT⟩ hG
    obtain ⟨mid, hu, hv⟩ := hshows.split
    obtain ⟨a, mid', h₁, hmid, rfl⟩ := hp.complete hu hR (hfollow hT hv hG)
    obtain ⟨c', last, h₂, hlast, hc⟩ := (hf a).complete (hv.of_lexemes_eq hmid) hT hG
    exact ⟨c', last, bind_eq_ok.mpr ⟨a, mid', h₁, h₂⟩, hlast, hc⟩

theorem Reads.bind (hp : Reads p view R) (hf : ∀ a, ReadsBefore G (f a) o (T (view a))) :
    ReadsBefore G (p >>= f) o fun ws c => ∃ u v b, ws = u ++ v ∧ R u b ∧ T b v c :=
  hp.bind_of_follow hf fun _ _ _ => trivial

/-- Readers compose, if the second one reads something and starts in a way that may follow. -/
theorem ReadsBefore.bind (hp : ReadsBefore F p view R)
    (hf : ∀ a, ReadsBefore G (f a) o (T (view a)))
    (hfirst : ∀ b v c, T b v c → ∃ w u, v = w :: u ∧ F w.1) :
    ReadsBefore G (p >>= f) o fun ws c => ∃ u v b, ws = u ++ v ∧ R u b ∧ T b v c := by
  refine hp.bind_of_follow hf fun {b v c mid feed'} hT hshows _ => ?_
  obtain ⟨w, u, rfl, hw⟩ := hfirst b v c hT
  rwa [hshows.kind]

theorem Reads.andThen {p : Reader β} {f : β → Reader γ} (hp : Reads p id R)
    (hf : ∀ b, ReadsBefore G (f b) o (T b)) :
    ReadsBefore G (p >>= f) o fun ws c => ∃ u v b, ws = u ++ v ∧ R u b ∧ T b v c :=
  hp.bind hf

theorem ReadsBefore.andThen {p : Reader β} {f : β → Reader γ} (hp : ReadsBefore F p id R)
    (hf : ∀ b, ReadsBefore G (f b) o (T b))
    (hfirst : ∀ b v c, T b v c → ∃ w u, v = w :: u ∧ F w.1) :
    ReadsBefore G (p >>= f) o fun ws c => ∃ u v b, ws = u ++ v ∧ R u b ∧ T b v c :=
  hp.bind hf hfirst

/-- Something is made of what is read. -/
theorem ReadsBefore.andReturn {g : α → γ} {r : β → δ} (hp : ReadsBefore F p view R)
    (hg : ∀ a, o (g a) = r (view a)) :
    ReadsBefore F (p >>= fun a => pure (g a)) o fun ws c => ∃ b, R ws b ∧ r b = c := by
  refine (hp.bind_of_follow (G := F) (T := fun b ws c => ws = [] ∧ c = r b)
    (fun a => ?_) ?_).congr fun ws c => ?_
  · rw [← hg a]
    exact (reads_pure (g a)).before
  · rintro b _ c mid feed' ⟨rfl, -⟩ hshows hF
    rwa [Feed.current_eq (Feed.lexemes_of_shows_nil hshows)]
  · constructor
    · rintro ⟨u, _, b, rfl, hR, rfl, rfl⟩
      exact ⟨b, by rwa [List.append_nil], rfl⟩
    · rintro ⟨b, hR, rfl⟩
      exact ⟨ws, [], b, (List.append_nil ws).symm, hR, rfl, rfl⟩

/-- Readers compose, if the first one ends only before what may follow. -/
theorem ReadsBefore.bind_of_stop (hp : ReadsBefore F p view R)
    (hstop : ∀ {feed a feed'}, p feed = .ok (a, feed') → F feed'.current.kind)
    (hf : ∀ a, ReadsBefore G (f a) o (T (view a))) (hne : ∀ b c, ¬ T b [] c) :
    ReadsBefore G (p >>= f) o fun ws c =>
      ∃ u w v b, ws = u ++ w :: v ∧ R u b ∧ F w.1 ∧ T b (w :: v) c where
  sound := by
    intro feed feed' c hfeed h
    obtain ⟨a, mid, h₁, h₂⟩ := bind_eq_ok.mp h
    obtain ⟨u, hu, hR⟩ := hp.sound hfeed h₁
    obtain ⟨v, hv, hT⟩ := (hf a).sound (hu.lexed hfeed) h₂
    cases v with
    | nil => exact absurd hT (hne _ _)
    | cons w v =>
      exact ⟨u ++ w :: v, hu.trans hv, u, w, v, view a, rfl, hR, hv.kind ▸ hstop h₁, hT⟩
  complete := by
    rintro feed feed' ws c hshows ⟨u, w, v, b, rfl, hR, hF, hT⟩ hG
    obtain ⟨mid, hu, hv⟩ := hshows.split
    obtain ⟨a, mid', h₁, hmid, rfl⟩ := hp.complete hu hR (hv.kind ▸ hF)
    obtain ⟨c', last, h₂, hlast, hc⟩ := (hf a).complete (hv.of_lexemes_eq hmid) hT hG
    exact ⟨c', last, bind_eq_ok.mpr ⟨a, mid', h₁, h₂⟩, hlast, hc⟩

/-- A reader that takes nothing before another one. -/
theorem ReadsBefore.skip {S : List Word → δ → Prop}
    (hp : Reads p (fun _ => ()) fun ws _ => ws = []) (hf : ∀ a, ReadsBefore G (f a) o S) :
    ReadsBefore G (p >>= f) o S := by
  refine (hp.bind (T := fun _ => S) hf).congr fun ws c => ?_
  constructor
  · rintro ⟨_, v, -, rfl, rfl, h⟩
    exact h
  · exact fun h => ⟨[], ws, (), rfl, rfl, h⟩

end Bind

theorem ReadsBefore.ite {c : Prop} [Decidable c] {q : Reader α} (hp : ReadsBefore F p view R)
    (hq : ReadsBefore F q view S) :
    ReadsBefore F (if c then p else q) view fun ws b => (c ∧ R ws b) ∨ (¬ c ∧ S ws b) := by
  split
  · next hc =>
    exact hp.congr fun ws b => by simp only [hc, true_and, not_true, false_and, or_false]
  · next hc =>
    exact hq.congr fun ws b => by simp only [hc, true_and, not_false_iff, false_and, false_or]

/-- A reader that stops unless a condition holds. -/
theorem ReadsBefore.guard {c : Prop} [Decidable c] {q : Reader α} (hp : ReadsBefore F p view R)
    (hq : ReadsBefore F q view fun _ _ => False) :
    ReadsBefore F (if c then p else q) view fun ws b => c ∧ R ws b :=
  (hp.ite hq).congr fun ws b => by simp only [and_false, or_false]

/-- A reader that stops if a condition holds. -/
theorem ReadsBefore.unless {c : Prop} [Decidable c] {q : Reader α}
    (hp : ReadsBefore F p view fun _ _ => False) (hq : ReadsBefore F q view S) :
    ReadsBefore F (if c then p else q) view fun ws b => ¬ c ∧ S ws b :=
  (hp.ite hq).congr fun ws b => by simp only [and_false, false_or]

/-! ### The next word -/

theorem reads_current : Reads current (fun _ => ()) fun ws _ => ws = [] where
  sound := by
    intro feed feed' a _ h
    cases h
    exact ⟨[], .nil rfl, rfl⟩
  complete := by
    rintro feed feed' ws b hshows rfl -
    exact ⟨feed.current, feed, rfl, Feed.lexemes_of_shows_nil hshows, rfl⟩

theorem reads_spanFrom (start : Position) :
    Reads (spanFrom start) (fun _ => ()) fun ws _ => ws = [] where
  sound := by
    intro feed feed' a _ h
    cases h
    exact ⟨[], .nil rfl, rfl⟩
  complete := by
    rintro feed feed' ws b hshows rfl -
    exact ⟨_, feed, rfl, Feed.lexemes_of_shows_nil hshows, rfl⟩

theorem reads_advance : Reads advance Token.word fun ws w => ws = [w] ∧ w.Plain where
  sound := by
    intro feed feed' t hfeed h
    rw [advance] at h
    split at h
    · obtain ⟨token, mid, -, h⟩ := bind_eq_ok.mp h
      cases h
    · cases h
    · next t' ahead hahead =>
      cases h
      exact ⟨_, .single (congrArg _ hahead), rfl, hfeed.plain⟩
  complete := by
    rintro feed feed' ws w ⟨ts, hts, hlexemes⟩ ⟨rfl, -⟩ -
    obtain ⟨t, rfl, rfl⟩ := List.map_eq_singleton_iff.mp hts
    obtain rfl := Except.ok.inj (List.cons.inj hlexemes).1
    -- The token behind is there, as `feed'` shows it.
    have hahead : feed.ahead = .ok feed'.current :: feed'.ahead := (List.cons.inj hlexemes).2
    rw [advance, hahead]
    exact ⟨_, _, rfl, rfl, rfl⟩

/-- The next word decides what is read. -/
theorem ReadsBefore.look {k : Token → Reader α} {T : Word → List Word → β → Prop}
    (hk : ∀ t, ReadsBefore F (k t) view (T t.word)) (hne : ∀ w b, ¬ T w [] b) :
    ReadsBefore F (current >>= k) view fun ws b => ∃ w u, ws = w :: u ∧ T w ws b where
  sound := by
    intro feed feed' a hfeed h
    obtain ⟨t, mid, hcurrent, h⟩ := bind_eq_ok.mp h
    cases hcurrent
    obtain ⟨ws, hshows, hT⟩ := (hk _).sound hfeed h
    refine ⟨ws, hshows, ?_⟩
    cases ws with
    | nil => exact absurd hT (hne _ _)
    | cons w u => exact ⟨w, u, rfl, hshows.current ▸ hT⟩
  complete := by
    rintro feed feed' ws b hshows ⟨w, u, rfl, hT⟩ hF
    obtain rfl := hshows.current
    obtain ⟨a, mid, h, hmid, ha⟩ := (hk feed.current).complete hshows hT hF
    exact ⟨a, mid, bind_eq_ok.mpr ⟨feed.current, feed, rfl, h⟩, hmid, ha⟩

/-- A phrase that may be missing, which is there if the next word is of a certain kind. -/
theorem ReadsBefore.optional {k : TokenKind} {a : α} (hp : Reads p view R)
    (hne : ∀ b, ¬ R [] b) :
    ReadsBefore (· ≠ k) (do if (← current).kind = k then p else return a) view fun ws b =>
      (R ws b ∧ ∃ w u, ws = w :: u ∧ w.1 = k) ∨ (ws = [] ∧ b = view a) where
  sound := by
    intro feed feed' a' hfeed h
    obtain ⟨t, mid, hcurrent, h⟩ := bind_eq_ok.mp h
    cases hcurrent
    split at h
    · next hkind =>
      obtain ⟨ws, hshows, hR⟩ := hp.sound hfeed h
      cases ws with
      | nil => exact absurd hR (hne _)
      | cons w u => exact ⟨w :: u, hshows, .inl ⟨hR, w, u, rfl, hshows.kind ▸ hkind⟩⟩
    · cases h
      exact ⟨[], .nil rfl, .inr ⟨rfl, rfl⟩⟩
  complete := by
    rintro feed feed' ws b hshows (⟨hR, w, u, rfl, hw⟩ | ⟨rfl, rfl⟩) hF
    · obtain ⟨a', mid, h, hmid, ha⟩ := hp.complete hshows hR trivial
      refine ⟨a', mid, bind_eq_ok.mpr ⟨feed.current, feed, rfl, ?_⟩, hmid, ha⟩
      rw [if_pos (hshows.kind.trans hw)]
      exact h
    · have hlexemes := Feed.lexemes_of_shows_nil hshows
      refine ⟨a, feed, bind_eq_ok.mpr ⟨feed.current, feed, rfl, ?_⟩, hlexemes, rfl⟩
      rw [if_neg (by rw [Feed.current_eq hlexemes]; exact hF)]
      rfl

/-- A reader that tells something of the next word and of the kind of the word behind it, and takes
neither of them. -/
structure Peeks (look : Reader γ) (tell : Word → TokenKind → γ) : Prop where
  stays : ∀ {feed mid c}, look feed = .ok (c, mid) → mid = feed
  tells : ∀ {feed t t' ahead}, feed.lexemes = .ok t :: .ok t' :: ahead →
    look feed = .ok (tell t.word t'.kind, feed)

/-- The next two words decide what is read. -/
theorem ReadsBefore.peek {look : Reader γ} {tell : Word → TokenKind → γ} {f : γ → Reader α}
    {T : γ → List Word → β → Prop} (hlook : Peeks look tell)
    (hf : ∀ c, ReadsBefore F (f c) view (T c)) (htwo : ∀ c ws b, T c ws b → 2 ≤ ws.length) :
    ReadsBefore F (look >>= f) view fun ws b =>
      ∃ w w' u, ws = w :: w' :: u ∧ T (tell w w'.1) ws b := by
  have htells : ∀ {feed feed' w w' u}, Feed.Shows feed (w :: w' :: u) feed' →
      look feed = .ok (tell w w'.1, feed) := by
    rintro feed feed' w w' u ⟨_ | ⟨t, _ | ⟨t', ts⟩⟩, hts, hlexemes⟩
    · cases hts
    · cases hts
    · cases hts
      exact hlook.tells hlexemes
  constructor
  · intro feed feed' a hfeed h
    obtain ⟨c, mid, h₁, h₂⟩ := bind_eq_ok.mp h
    obtain rfl := hlook.stays h₁
    obtain ⟨ws, hshows, hT⟩ := (hf c).sound hfeed h₂
    refine ⟨ws, hshows, ?_⟩
    match ws, htwo c ws _ hT with
    | w :: w' :: u, _ =>
      obtain rfl : tell w w'.1 = c :=
        congrArg Prod.fst (Except.ok.inj ((htells hshows).symm.trans h₁))
      exact ⟨w, w', u, rfl, hT⟩
  · rintro feed feed' ws b hshows ⟨w, w', u, rfl, hT⟩ hF
    obtain ⟨a, mid, h, hmid, ha⟩ := (hf _).complete hshows hT hF
    exact ⟨a, mid, bind_eq_ok.mpr ⟨_, feed, htells hshows, h⟩, hmid, ha⟩

theorem peeks_peekKind : Peeks peekKind fun _ kind => kind where
  stays := by
    intro feed mid c h
    rw [peekKind] at h
    split at h <;> cases h <;> rfl
  tells := by
    intro feed t t' ahead h
    obtain ⟨-, hahead⟩ := List.cons.inj h
    rw [peekKind, hahead]

/-! ### Words -/

theorem reads_expect (kind : TokenKind) (what : String) :
    Reads (expect kind what) Token.word fun ws w => ws = [w] ∧ w.Plain ∧ w.1 = kind := by
  refine (ReadsBefore.look (T := fun w ws b => w.1 = kind ∧ ws = [b] ∧ b.Plain)
    (fun t => reads_advance.guard (reads_unexpected what)) ?_).congr fun ws w => ?_
  · rintro w b ⟨-, hnil, -⟩
    cases hnil
  · constructor
    · rintro ⟨w', u, rfl, hkind, hsingle, hplain⟩
      cases hsingle
      exact ⟨rfl, hplain, hkind⟩
    · rintro ⟨rfl, hplain, hkind⟩
      exact ⟨w, [], rfl, hkind, rfl, hplain⟩

/-- Of a word that is read, only a part may be of interest. -/
theorem ReadsBefore.map (h : ReadsBefore F p view R) (g : β → δ) :
    ReadsBefore F p (fun a => g (view a)) fun ws d => ∃ b, R ws b ∧ g b = d where
  sound := by
    intro feed feed' a hfeed hp
    obtain ⟨ws, hshows, hR⟩ := h.sound hfeed hp
    exact ⟨ws, hshows, _, hR, rfl⟩
  complete := by
    rintro feed feed' ws d hshows ⟨b, hR, rfl⟩ hF
    obtain ⟨a, mid, hp, hmid, rfl⟩ := h.complete hshows hR hF
    exact ⟨a, mid, hp, hmid, rfl⟩

theorem reads_identifier (what : String) :
    Reads (expect .identifier what) (fun t => t.text) fun ws s => ws = [.name s] := by
  refine ((reads_expect .identifier what).map Prod.snd).congr fun ws s => ?_
  constructor
  · rintro ⟨⟨kind, text⟩, ⟨rfl, -, rfl⟩, rfl⟩
    rfl
  · rintro rfl
    exact ⟨.name s, ⟨rfl, Word.plain_name s, rfl⟩, rfl⟩

theorem reads_name (what : String) : Reads (name what) id fun ws s => ws = [.name s] := by
  refine ((reads_identifier what).andReturn (r := id) fun t => rfl).congr fun ws s => ?_
  exact ⟨fun ⟨_, h, heq⟩ => heq ▸ h, fun h => ⟨s, h, rfl⟩⟩

/-- The text of a sign need not be looked at, as the scanner makes no other one. -/
theorem reads_sign {kind : TokenKind} (hsign : kind.isSign = true) (what : String) :
    Reads (expect kind what) (fun _ => ()) fun ws _ => ws = [.sign kind] := by
  refine ((reads_expect kind what).map fun _ => ()).congr fun ws u => ?_
  constructor
  · rintro ⟨w, ⟨rfl, hplain, rfl⟩, -⟩
    rw [← hplain.sign hsign]
  · rintro rfl
    exact ⟨.sign kind, ⟨rfl, Word.plain_sign kind, rfl⟩, rfl⟩

theorem reads_expectKeyword (word : String) :
    Reads (expectKeyword word) (fun _ => ()) fun ws _ => ws = [.name word] := by
  refine (ReadsBefore.look
    (T := fun w ws u => w = .name word ∧ ∃ w' : Word, (ws = [w'] ∧ w'.Plain) ∧ () = u)
    (fun t => ?_) ?_).congr fun ws u => ?_
  · rw [← Token.isKeyword_iff]
    exact (reads_advance.map fun _ => ()).guard (reads_unexpected _)
  · rintro w u ⟨-, w', ⟨hnil, -⟩, -⟩
    cases hnil
  · constructor
    · rintro ⟨w, v, rfl, rfl, w', ⟨hsingle, -⟩, -⟩
      cases hsingle
      rfl
    · rintro rfl
      exact ⟨_, _, rfl, rfl, _, ⟨rfl, Word.plain_name word⟩, rfl⟩

section Bind

variable {f : Token → Reader γ} {o : γ → δ} {T : List Word → δ → Prop} {what : String}

/-- A sign at the start of a phrase. -/
theorem ReadsBefore.sign_bind {kind : TokenKind} (hsign : kind.isSign = true)
    (hf : ∀ t, ReadsBefore G (f t) o T) :
    ReadsBefore G (expect kind what >>= f) o fun ws c => ∃ v, ws = .sign kind :: v ∧ T v c := by
  refine ((reads_sign hsign what).bind (T := fun _ => T) hf).congr fun ws c => ?_
  constructor
  · rintro ⟨_, v, -, rfl, rfl, h⟩
    exact ⟨v, rfl, h⟩
  · rintro ⟨v, rfl, h⟩
    exact ⟨_, v, (), rfl, rfl, h⟩

/-- A keyword at the start of a phrase. -/
theorem ReadsBefore.keyword_bind {w : String} (hf : ∀ t, ReadsBefore G (f t) o T) :
    ReadsBefore G (expectKeyword w >>= f) o fun ws c => ∃ v, ws = .name w :: v ∧ T v c := by
  refine ((reads_expectKeyword w).bind (T := fun _ => T) hf).congr fun ws c => ?_
  constructor
  · rintro ⟨_, v, -, rfl, rfl, h⟩
    exact ⟨v, rfl, h⟩
  · rintro ⟨v, rfl, h⟩
    exact ⟨_, v, (), rfl, rfl, h⟩

/-- Any word at the start of a phrase. -/
theorem ReadsBefore.advance_bind {T : Word → List Word → δ → Prop}
    (hf : ∀ t : Token, ReadsBefore G (f t) o (T t.word)) :
    ReadsBefore G (advance >>= f) o fun ws c =>
      ∃ w v, ws = w :: v ∧ w.Plain ∧ T w v c := by
  refine (reads_advance.bind (T := T) hf).congr fun ws c => ?_
  constructor
  · rintro ⟨_, v, w, rfl, ⟨rfl, hplain⟩, h⟩
    exact ⟨w, v, rfl, hplain, h⟩
  · rintro ⟨w, v, rfl, hplain, h⟩
    exact ⟨_, v, w, rfl, ⟨rfl, hplain⟩, h⟩

/-- A name at the start of a phrase, of which only the text is of interest. -/
theorem ReadsBefore.identifier_bind {T : String → List Word → δ → Prop}
    (hf : ∀ t : Token, ReadsBefore G (f t) o (T t.text)) :
    ReadsBefore G (expect .identifier what >>= f) o fun ws c =>
      ∃ s v, ws = .name s :: v ∧ T s v c := by
  refine ((reads_identifier what).bind (T := T) hf).congr fun ws c => ?_
  constructor
  · rintro ⟨_, v, s, rfl, rfl, h⟩
    exact ⟨s, v, rfl, h⟩
  · rintro ⟨s, v, rfl, h⟩
    exact ⟨_, v, s, rfl, rfl, h⟩

/-- A name at the start of a phrase. -/
theorem ReadsBefore.name_bind {f : String → Reader γ} {T : String → List Word → δ → Prop}
    (hf : ∀ s, ReadsBefore G (f s) o (T s)) :
    ReadsBefore G (name what >>= f) o fun ws c => ∃ s v, ws = .name s :: v ∧ T s v c := by
  refine ((reads_name what).bind (T := T) hf).congr fun ws c => ?_
  constructor
  · rintro ⟨_, v, s, rfl, rfl, h⟩
    exact ⟨s, v, rfl, h⟩
  · rintro ⟨s, v, rfl, h⟩
    exact ⟨_, v, s, rfl, rfl, h⟩

end Bind

end Reader

/-! ### Repetition -/

/-- No item is refused because of those before it. -/
def AllFresh {β : Type} (Q : List β → β → Prop) : List β → List β → Prop
  | _, [] => True
  | seen, b :: bs => Q seen b ∧ AllFresh Q (seen ++ [b]) bs

theorem allFresh_true {β : Type} (seen bs : List β) : AllFresh (fun _ _ => True) seen bs := by
  induction bs generalizing seen with
  | nil => trivial
  | cons b bs ih => exact ⟨trivial, ih _⟩

/-- If an item is refused for having the key of one before it, then the keys of a list differ. -/
theorem allFresh_key {β κ : Type} (key : β → κ) (seen bs : List β) :
    AllFresh (fun seen b => key b ∉ seen.map key) seen bs ↔
      (bs.map key).Nodup ∧ ∀ b ∈ bs, key b ∉ seen.map key := by
  induction bs generalizing seen with
  | nil => simp [AllFresh]
  | cons b bs ih =>
    rw [AllFresh, ih, List.map_cons, List.nodup_cons, List.forall_mem_cons]
    simp only [List.map_append, List.map_singleton, List.mem_append, List.mem_singleton, not_or,
      List.mem_map]
    constructor
    · rintro ⟨hb, hnodup, hbs⟩
      exact ⟨⟨fun ⟨b', hmem, heq⟩ => (hbs b' hmem).2 heq, hnodup⟩, hb, fun b' hb' => (hbs b' hb').1⟩
    · rintro ⟨⟨hnot, hnodup⟩, hb, hbs⟩
      exact ⟨hb, hnodup, fun b' hb' => ⟨hbs b' hb', fun heq => hnot ⟨b', hb', heq⟩⟩⟩

namespace Reader

variable {α β : Type} {view : α → β} {I : List Word → β → Prop} {Q : List β → β → Prop}
  {item : List α → Reader α} {h : ∀ seen, Shrinks (item seen)}

theorem many_of_item {goesOn : TokenKind → Bool} {seen : List α} {feed mid : Feed} {a : α}
    (hgo : goesOn feed.current.kind = true) (ha : item seen feed = .ok (a, mid)) :
    many goesOn item h seen feed = many goesOn item h (seen ++ [a]) mid := by
  rw [many, if_pos hgo]
  split
  · next e herror =>
    rw [ha] at herror
    cases herror
  · next a' mid' hok =>
    rw [ha] at hok
    cases hok
    rfl

theorem many_of_stop {goesOn : TokenKind → Bool} {seen : List α} {feed : Feed}
    (hstop : goesOn feed.current.kind = false) :
    many goesOn item h seen feed = .ok (seen, feed) := by
  rw [many, hstop, if_neg Bool.false_ne_true]

theorem commaList_of_close {close : TokenKind} {seen : List α} {feed : Feed}
    (hclose : feed.current.kind = close) :
    commaList close item h seen feed = .ok (seen, feed) := by
  rw [commaList, if_pos hclose]

/-- An item before a comma is followed by more of the list. -/
theorem commaList_of_comma {close : TokenKind} {seen : List α} {feed mid next : Feed} {a : α}
    {t : Token} (hopen : feed.current.kind ≠ close) (ha : item seen feed = .ok (a, mid))
    (hcomma : mid.current.kind = .comma) (hadvance : advance mid = .ok (t, next)) :
    commaList close item h seen feed = commaList close item h (seen ++ [a]) next := by
  rw [commaList, if_neg hopen]
  split
  · next e herror =>
    rw [ha] at herror
    cases herror
  · next a' mid' hok =>
    rw [ha] at hok
    cases hok
    rw [if_pos hcomma]
    split
    · next e herror =>
      rw [hadvance] at herror
      cases herror
    · next t' next' hok =>
      rw [hadvance] at hok
      cases hok
      rfl

/-- An item before anything else is the last one. -/
theorem commaList_of_last {close : TokenKind} {seen : List α} {feed mid : Feed} {a : α}
    (hopen : feed.current.kind ≠ close) (ha : item seen feed = .ok (a, mid))
    (hlast : mid.current.kind ≠ .comma) :
    commaList close item h seen feed = .ok (seen ++ [a], mid) := by
  rw [commaList, if_neg hopen]
  split
  · next e herror =>
    rw [ha] at herror
    cases herror
  · next a' mid' hok =>
    rw [ha] at hok
    cases hok
    rw [if_neg hlast]

/-- Repetition ends where it does not go on. -/
theorem stop_of_many {goesOn : TokenKind → Bool} {seen as : List α} {feed feed' : Feed}
    (hp : many goesOn item h seen feed = .ok (as, feed')) :
    goesOn feed'.current.kind = false := by
  fun_induction many goesOn item h seen feed with
  | case1 => cases hp
  | case2 seen feed _ b mid _ ih => exact ih hp
  | case3 seen feed hno =>
    cases hp
    exact Bool.eq_false_iff.mpr hno

/-- What is repeated are items whose first word says that there is one more. -/
theorem reads_many {goesOn : TokenKind → Bool} {A : List Word → β → Prop}
    (hitem : ∀ seen, Reads (item seen) view fun ws b => A ws b ∧ Q (seen.map view) b)
    (hne : ∀ b, ¬ A [] b)
    (hgoes : ∀ ws b, I ws b ↔ A ws b ∧ ∃ w u, ws = w :: u ∧ goesOn w.1 = true)
    (seen : List α) :
    ReadsBefore (fun kind => goesOn kind = false) (many goesOn item h seen) (List.map view)
      fun ws bs => ∃ tail, bs = seen.map view ++ tail ∧ RepeatForm I ws tail ∧
        AllFresh Q (seen.map view) tail where
  sound := by
    intro feed feed' as hfeed hp
    fun_induction many goesOn item h seen feed with
    | case1 => cases hp
    | case2 seen feed hcurrent b mid hb ih =>
      obtain ⟨u, hu, hform, hfresh⟩ := (hitem seen).sound hfeed hb
      obtain ⟨v, hv, tail, htail, hforms, hall⟩ := ih (hu.lexed hfeed) hp
      rw [List.map_append, List.map_singleton] at htail hall
      cases u with
      | nil => exact absurd hform (hne _)
      | cons w u =>
        have hw : goesOn w.1 = true := hu.kind ▸ hcurrent
        refine ⟨w :: u ++ v, hu.trans hv, view b :: tail, ?_,
          .cons ((hgoes _ _).mpr ⟨hform, w, u, rfl, hw⟩) hforms, hfresh, hall⟩
        rw [htail, List.append_assoc, List.singleton_append]
    | case3 seen feed _ =>
      cases hp
      exact ⟨[], .nil rfl, [], (List.append_nil _).symm, .nil, trivial⟩
  complete := by
    rintro feed feed' ws bs hshows ⟨tail, rfl, hforms, hall⟩ hstop
    induction hforms generalizing seen feed with
    | nil =>
      have hlexemes := Feed.lexemes_of_shows_nil hshows
      rw [many_of_stop (by rw [Feed.current_eq hlexemes, hstop])]
      exact ⟨seen, feed, rfl, hlexemes, (List.append_nil _).symm⟩
    | @cons u v b bs hform hforms ih =>
      obtain ⟨hfresh, hall⟩ := hall
      obtain ⟨mid, hu, hv⟩ := hshows.split
      obtain ⟨hany, w, u, rfl, hw⟩ := (hgoes u b).mp hform
      obtain ⟨a, mid', ha, hmid, rfl⟩ := (hitem seen).complete hu ⟨hany, hfresh⟩ trivial
      have hseen : (seen ++ [a]).map view = seen.map view ++ [view a] := by
        rw [List.map_append, List.map_singleton]
      obtain ⟨as, last, hp, hlast, has⟩ := ih (seen ++ [a]) (hv.of_lexemes_eq hmid) (hseen ▸ hall)
      refine ⟨as, last, (many_of_item (by rw [hu.kind, hw]) ha).trans hp, hlast, ?_⟩
      rw [has, hseen, List.append_assoc, List.singleton_append]

theorem reads_commaList {close : TokenKind} (hclose : close ≠ .comma)
    (hitem : ∀ seen, Reads (item seen) view fun ws b => I ws b ∧ Q (seen.map view) b)
    (hfirst : ∀ ws b, I ws b → ∃ w u, ws = w :: u ∧ w.1 ≠ close) (seen : List α) :
    ReadsBefore (· = close) (commaList close item h seen) (List.map view)
      fun ws bs => ∃ tail, bs = seen.map view ++ tail ∧ ListForm I ws tail ∧
        AllFresh Q (seen.map view) tail where
  sound := by
    intro feed feed' as hfeed hp
    fun_induction commaList close item h seen feed with
    | case1 seen feed _ =>
      cases hp
      exact ⟨[], .nil rfl, [], (List.append_nil _).symm, .nil, trivial⟩
    | case2 => cases hp
    | case3 => cases hp
    | case4 seen feed _ b mid hb hcomma t mid' hadvance ih =>
      obtain ⟨u, hu, hform, hfresh⟩ := (hitem seen).sound hfeed hb
      have hmid := hu.lexed hfeed
      -- The token taken is the comma that was looked at.
      obtain ⟨_, hw, rfl, hplain⟩ := reads_advance.sound hmid hadvance
      have hkind : t.word.1 = .comma := hw.kind ▸ hcomma
      rw [hplain.sign (by rw [hkind]; rfl), hkind] at hw
      obtain ⟨v, hv, tail, htail, hforms, hall⟩ := ih (hw.lexed hmid) hp
      rw [List.map_append, List.map_singleton] at htail hall
      refine ⟨u ++ .sign .comma :: v, hu.trans (hw.trans hv), view b :: tail, ?_,
        .cons hform hforms, hfresh, hall⟩
      rw [htail, List.append_assoc, List.singleton_append]
    | case5 seen feed _ b mid hb _ =>
      cases hp
      obtain ⟨u, hu, hform, hfresh⟩ := (hitem seen).sound hfeed hb
      refine ⟨u, hu, [view b], ?_, .last hform, hfresh, trivial⟩
      rw [List.map_append, List.map_singleton]
  complete := by
    rintro feed feed' ws bs hshows ⟨tail, rfl, hforms, hall⟩ hstop
    -- What an item at the start does, whatever comes behind it.
    have hstart : ∀ {seen : List α} {feed mid : Feed} {u : List Word} {b : β},
        feed.Shows u mid → I u b → Q (seen.map view) b →
        feed.current.kind ≠ close ∧
          ∃ a mid', item seen feed = .ok (a, mid') ∧ mid'.lexemes = mid.lexemes ∧ view a = b := by
      intro seen feed mid u b hu hform hfresh
      obtain ⟨w, u', rfl, hw⟩ := hfirst u b hform
      exact ⟨hu.kind ▸ hw, (hitem seen).complete hu ⟨hform, hfresh⟩ trivial⟩
    induction hforms generalizing seen feed with
    | nil =>
      have hlexemes := Feed.lexemes_of_shows_nil hshows
      rw [commaList_of_close (by rw [Feed.current_eq hlexemes, hstop])]
      exact ⟨seen, feed, rfl, hlexemes, (List.append_nil _).symm⟩
    | @last u b hform =>
      obtain ⟨hopen, a, mid, ha, hmid, rfl⟩ := hstart hshows hform hall.1
      have hlast : mid.current.kind ≠ .comma := by rwa [Feed.current_eq hmid, hstop]
      rw [commaList_of_last hopen ha hlast]
      exact ⟨_, _, rfl, hmid, by rw [List.map_append, List.map_singleton]⟩
    | @cons u v b bs hform hforms ih =>
      obtain ⟨hfresh, hall⟩ := hall
      obtain ⟨mid, hu, hcommav⟩ := hshows.split
      obtain ⟨hopen, a, mid', ha, hmid, rfl⟩ := hstart hu hform hfresh
      obtain ⟨behind, hcomma, hv⟩ := Feed.Shows.split (u := [.sign .comma]) hcommav
      have hcomma' := hcomma.of_lexemes_eq hmid
      obtain ⟨t, next, hadvance, hnext, -⟩ :=
        reads_advance.complete hcomma' ⟨rfl, Word.plain_sign .comma⟩ trivial
      have hseen : (seen ++ [a]).map view = seen.map view ++ [view a] := by
        rw [List.map_append, List.map_singleton]
      obtain ⟨as, last, hp, hlast, has⟩ :=
        ih (seen ++ [a]) (hv.of_lexemes_eq hnext) (hseen ▸ hall)
      refine ⟨as, last, ?_, hlast, ?_⟩
      · rw [commaList_of_comma hopen ha hcomma'.kind hadvance]
        exact hp
      · rw [has, hseen, List.append_assoc, List.singleton_append]

/-- Lists whose items do not depend on those before them. -/
theorem reads_list {close : TokenKind} (hclose : close ≠ .comma)
    (hitem : ∀ seen, Reads (item seen) view I)
    (hfirst : ∀ ws b, I ws b → ∃ w u, ws = w :: u ∧ w.1 ≠ close) :
    ReadsBefore (· = close) (commaList close item h []) (List.map view) (ListForm I) := by
  refine (reads_commaList (Q := fun _ _ => True) hclose
    (fun seen => (hitem seen).congr fun ws b => (and_iff_left trivial).symm) hfirst []).congr
    fun ws bs => ?_
  constructor
  · rintro ⟨_, rfl, hform, -⟩
    exact hform
  · exact fun hform => ⟨bs, rfl, hform, allFresh_true _ _⟩

end Reader

end CombinatorNet
