import CombinatorNet.Proofs.Language.Statements

/-!
# The parser recognizes the grammar

The parser reads templates up to the end of input. What it makes of a text is what the grammar makes
of the words of the text, so the grammar has one reading of them at most.

## Main results

* `reads_readTemplate` — the reader of templates reads templates
* `Program.programForm_of_parse` — the words of a parsed text are those of the program
* `Program.parse_of_programForm` — and a text with the words of a program is parsed to it
* `Program.parse_iff_programForm` — both together
-/

namespace CombinatorNet

open Reader

/-! ### Templates -/

theorem reads_readParam (seen : List String) :
    Reads (readParam seen) id fun ws s => ParamForm ws s ∧ s ∉ seen := by
  refine ReadsBefore.congr (.identifier_bind (T := fun s ws s' => ¬ s ∈ seen ∧ ws = [] ∧ s' = s)
    fun t => .unless (reads_fail _ _) (reads_pure t.text)) fun ws s => ?_
  constructor
  · rintro ⟨s, _, rfl, hfresh, rfl, rfl⟩
    exact ⟨.mk s, hfresh⟩
  · rintro ⟨⟨s⟩, hfresh⟩
    exact ⟨s, _, rfl, hfresh, rfl, rfl⟩

theorem reads_params : ReadsBefore (· = .closeParen)
    (commaList .closeParen readParam shrinks_readParam []) id
    fun ws params => ListForm ParamForm ws params ∧ params.Nodup := by
  rw [← List.map_id_fun]
  refine ReadsBefore.congr (reads_commaList (Q := fun seen b => id b ∉ seen.map id)
    (I := ParamForm) (by decide) (fun seen => ?_) (fun ws s h => ?_) []) fun ws params => ?_
  · refine (reads_readParam seen).congr fun ws s => ?_
    rw [List.map_id_fun, id, id, id]
  · cases h
    exact ⟨_, _, rfl, nofun⟩
  · constructor
    · rintro ⟨params, rfl, hform, hfresh⟩
      have hnodup := ((allFresh_key id [] params).mp hfresh).1
      rw [List.map_id] at hnodup
      exact ⟨hform, hnodup⟩
    · rintro ⟨hform, hnodup⟩
      refine ⟨params, rfl, hform, (allFresh_key id [] params).mpr ⟨?_, fun _ _ => List.not_mem_nil⟩⟩
      rwa [List.map_id]

theorem reads_readBodyStatement (seen : List Statement) :
    Reads (readBodyStatement seen) Statement.unplaced StatementForm := by
  refine ReadsBefore.congr (.look (T := fun w ws s => ¬ w.1 = .finish ∧ StatementForm ws s)
    (fun t => .unless (reads_unexpected _) reads_readStatement) ?_) fun ws s => ?_
  · rintro w s ⟨-, h⟩
    obtain ⟨_, _, hnil, -⟩ := h.head
    cases hnil
  · constructor
    · rintro ⟨w, u, rfl, -, h⟩
      exact h
    · intro h
      obtain ⟨w, u, rfl, hfinish, -⟩ := h.head
      exact ⟨w, u, rfl, hfinish, h⟩

theorem reads_statements : ReadsBefore (fun kind => decide (kind ≠ .closeBrace) = false)
    (many (fun kind => kind ≠ .closeBrace) readBodyStatement shrinks_readBodyStatement [])
    (List.map Statement.unplaced) (RepeatForm StatementForm) := by
  refine (reads_many (Q := fun _ _ => True) (I := StatementForm)
    (fun seen => (reads_readBodyStatement seen).congr fun ws b => (and_iff_left trivial).symm)
    (fun s h => ?_) (fun ws s => ?_) []).congr fun ws body => ?_
  · obtain ⟨_, _, hnil, -⟩ := h.head
    cases hnil
  · refine ⟨fun h => ⟨h, ?_⟩, And.left⟩
    obtain ⟨w, u, rfl, -, hclose⟩ := h.head
    exact ⟨w, u, rfl, decide_eq_true hclose⟩
  · constructor
    · rintro ⟨_, rfl, h, -⟩
      exact h
    · exact fun h => ⟨body, rfl, h, allFresh_true _ _⟩

/-- The closing brace is the word at which the repetition stopped. -/
theorem reads_readBody : Reads readBody (List.map Statement.unplaced) fun ws body =>
    ∃ u, ws = .sign .openBrace :: (u ++ [.sign .closeBrace]) ∧ RepeatForm StatementForm u body := by
  refine ReadsBefore.congr (.sign_bind rfl fun _ => reads_statements.bind_of_stop stop_of_many
    (T := fun body ws body' => ∃ w v, ws = w :: v ∧ Word.Plain w ∧ v = [] ∧ body' = body)
    (fun body => .advance_bind (T := fun _ v body' => v = [] ∧ body' = body.map Statement.unplaced)
      fun _ => reads_pure body) ?_) fun ws body => ?_
  · rintro body body' ⟨_, _, hnil, -⟩
    cases hnil
  · constructor
    · rintro ⟨_, rfl, u, w, _, _, rfl, h, hclose, _, _, heq, hplain, rfl, rfl⟩
      cases heq
      have hkind : w.1 = .closeBrace := by simpa using hclose
      rw [hplain.sign (by rw [hkind]; rfl), hkind]
      exact ⟨u, rfl, h⟩
    · rintro ⟨u, rfl, h⟩
      exact ⟨_, rfl, u, _, _, body, rfl, h, rfl, _, _, rfl, Word.plain_sign _, rfl, rfl⟩

/-- A template is refused for the name of one before it, once its body is read. -/
theorem reads_readTemplate (seen : List Template) :
    Reads (readTemplate seen) Template.unplaced fun ws t =>
      TemplateForm ws t ∧ t.name ∉ (seen.map Template.unplaced).map (·.name) := by
  have hreturn : ∀ (name : String) (params : List String) (body : List Statement) (span : Span),
      Reads (if seen.any (fun t => t.name = name) then throw (.duplicateTemplate name span)
        else return ⟨name, params, body, span⟩ : Reader Template) Template.unplaced fun ws t =>
          ¬ name ∈ (seen.map Template.unplaced).map (·.name) ∧ ws = [] ∧
            t = ⟨name, params, body.map Statement.unplaced, .nowhere⟩ := by
    intro name params body span
    have hany : seen.any (fun t => t.name = name) = true ↔
        name ∈ (seen.map Template.unplaced).map (·.name) := by
      simp [Template.unplaced]
    rw [← hany]
    exact (reads_throw _).unless (reads_pure _)
  refine ReadsBefore.congr (.skip reads_current fun t => .name_bind fun name => .sign_bind rfl
    fun _ => reads_params.andThen (fun params => .sign_bind rfl fun _ => .skip (reads_spanFrom _)
      fun span => reads_readBody.bind (T := fun body ws t =>
        ¬ name ∈ (seen.map Template.unplaced).map (·.name) ∧ ws = [] ∧
          t = Template.mk name params body .nowhere)
        fun body => hreturn name params body span) ?_) fun ws t => ?_
  · rintro _ _ _ ⟨_, rfl, -⟩
    exact ⟨_, _, rfl, rfl⟩
  · constructor
    · rintro ⟨name, _, rfl, _, rfl, u, _, params, rfl, ⟨hparams, hnodup⟩, _, rfl, _, _, body, rfl,
        ⟨v, rfl, hbody⟩, hfresh, rfl, rfl⟩
      rw [List.append_nil]
      exact ⟨.mk name hparams hnodup hbody, hfresh⟩
    · rintro ⟨⟨name, hparams, hnodup, hbody⟩, hfresh⟩
      exact ⟨_, _, rfl, _, rfl, _, _, _, rfl, ⟨hparams, hnodup⟩, _, rfl, _, _, _,
        (List.append_nil _).symm, ⟨_, rfl, hbody⟩, hfresh, rfl, rfl⟩

theorem reads_templates : ReadsBefore (fun kind => decide (kind ≠ .finish) = false)
    (many (fun kind => kind ≠ .finish) readTemplate shrinks_readTemplate [])
    (List.map Template.unplaced)
    fun ws ts => RepeatForm TemplateForm ws ts ∧ (ts.map (·.name)).Nodup := by
  refine ReadsBefore.congr (reads_many
    (Q := fun seen (t : Template) => t.name ∉ seen.map (·.name)) (I := TemplateForm)
    reads_readTemplate (fun t h => ?_) (fun ws t => ?_) []) fun ws ts => ?_
  · obtain ⟨_, _, hnil⟩ := h.head
    cases hnil
  · refine ⟨fun h => ⟨h, ?_⟩, And.left⟩
    obtain ⟨s, u, rfl⟩ := h.head
    exact ⟨_, _, rfl, rfl⟩
  · simp only [List.map_nil, List.nil_append, exists_eq_left', List.not_mem_nil, not_false_iff,
      implies_true, and_true, allFresh_key (fun t : Template => t.name)]

/-! ### Programs -/

/-- The templates of a program are read up to the end of input, which is left. -/
theorem reads_read : ReadsBefore (fun kind => decide (kind ≠ .finish) = false) Program.read
    Program.unplaced fun ws p => RepeatForm TemplateForm ws p.templates ∧ p.templates ≠ [] ∧
      (p.templates.map (·.name)).Nodup := by
  have hfail : Reads (do fail .noDefinition (← current).span) Program.unplaced
      fun _ _ => False := .skip reads_current fun t => reads_fail _ _
  have hreturn : ∀ templates : List Template, Reads (do
      if templates.isEmpty then fail .noDefinition (← current).span else return ⟨templates⟩)
      Program.unplaced fun ws p => ¬ templates.map Template.unplaced = [] ∧ ws = [] ∧
        p = ⟨templates.map Template.unplaced⟩ := by
    intro templates
    rw [List.map_eq_nil_iff, ← List.isEmpty_iff]
    exact hfail.unless (reads_pure (Program.mk templates))
  refine ReadsBefore.congr (reads_templates.bind_of_follow
    (T := fun templates ws p => ¬ templates = [] ∧ ws = [] ∧ p = Program.mk templates)
    (fun templates => (hreturn templates).before) ?_) fun ws p => ?_
  · rintro templates _ p mid feed' ⟨-, rfl, -⟩ hshows hF
    rwa [Feed.current_eq (Feed.lexemes_of_shows_nil hshows)]
  · constructor
    · rintro ⟨u, _, templates, rfl, ⟨h, hnodup⟩, hne, rfl, rfl⟩
      rw [List.append_nil]
      exact ⟨h, hne, hnodup⟩
    · rintro ⟨h, hne, hnodup⟩
      exact ⟨ws, [], _, (List.append_nil ws).symm, ⟨h, hnodup⟩, hne, rfl, rfl⟩

theorem kind_of_read {feed feed' : Feed} {p : Program} (h : Program.read feed = .ok (p, feed')) :
    feed'.current.kind = .finish := by
  obtain ⟨templates, mid, hmany, h⟩ := bind_eq_ok.mp h
  split at h
  · obtain ⟨t, _, -, h⟩ := bind_eq_ok.mp h
    cases h
  · cases h
    simpa using stop_of_many hmany

namespace Program

variable {source : String} {tokens : List Token} {p placed : Program}

theorem scan_ne_nil (source : String) : scan source ≠ [] := by
  rw [scan, scanFrom]
  split <;> exact List.cons_ne_nil _ _

/-- A program is read from all lexemes of a text, and only the end of input is left. -/
theorem exists_read_of_parse (h : parse source = .ok placed) : ∃ feed feed' : Feed,
    feed.lexemes = scan source ∧ feed.Lexed ∧ Program.read feed = .ok (placed, feed') ∧
      feed'.ahead = [] ∧ feed'.current.word = .sign .finish := by
  rw [parse, ofLexemes] at h
  cases hscan : scan source with
  | nil => exact absurd hscan (scan_ne_nil source)
  | cons first ahead =>
    rw [hscan] at h
    cases first with
    | error fault => cases h
    | ok t =>
      cases hread : Program.read ⟨.origin, t, ahead⟩ with
      | error e =>
        simp only [Feed.ofLexemes, hread] at h
        cases h
      | ok r =>
        obtain ⟨p, feed'⟩ := r
        simp only [Feed.ofLexemes, hread] at h
        cases h
        have hscan' : scanFrom .origin source.toList = .ok t :: ahead := hscan
        have hlexed : Feed.Lexed ⟨.origin, t, ahead⟩ := by
          intro t' ht'
          have hmem : .ok t' ∈ scanFrom .origin source.toList := by
            rw [hscan']
            exact ht'
          exact lexed_of_mem_scanFrom hmem
        obtain ⟨_, hshows, -⟩ := reads_read.sound hlexed hread
        have hplain := (hshows.lexed hlexed).plain
        obtain ⟨ts, -, hts⟩ := hshows
        -- Nothing can stand behind the end of input.
        have hkind := kind_of_read hread
        have hword : feed'.current.word.1 = .finish := hkind
        refine ⟨_, feed', rfl, hlexed, hread,
          eq_nil_of_scanFrom_finish hkind (ts.map .ok) (hscan.trans hts), ?_⟩
        rw [hplain.sign (by rw [hword]; rfl), hword]

/-- A text that is parsed has no faults, and its words are those of the program. -/
theorem programForm_of_parse (h : parse source = .ok placed) :
    ∃ tokens : List Token, scan source = tokens.map .ok ∧
      ProgramForm (tokens.map Token.word) placed.unplaced := by
  obtain ⟨feed, feed', hscan, hlexed, hread, hahead, hfinish⟩ := exists_read_of_parse h
  obtain ⟨_, ⟨ts, rfl, hts⟩, hform, hne, hnodup⟩ := reads_read.sound hlexed hread
  refine ⟨ts ++ [feed'.current], ?_, ?_⟩
  · rw [List.map_append, List.map_singleton, ← hscan, hts, Feed.lexemes, hahead]
  · rw [List.map_append, List.map_singleton, hfinish]
    exact .mk hform hne hnodup

/-- What the grammar makes of the words of a text is what the text is parsed to. -/
theorem parse_of_programForm (h : scan source = tokens.map .ok)
    (hform : ProgramForm (tokens.map Token.word) p) :
    ∃ placed, parse source = .ok placed ∧ placed.unplaced = p := by
  generalize hws : tokens.map Token.word = ws at hform
  obtain ⟨hrepeat, hne, hnodup⟩ := hform
  obtain ⟨ts, _, rfl, rfl, hlast⟩ := List.map_eq_append_iff.mp hws
  obtain ⟨finish, rfl, hfinish⟩ := List.map_eq_singleton_iff.mp hlast
  obtain ⟨feed, hfeed, hlexemes⟩ : ∃ feed, Feed.ofLexemes (scan source) = .ok feed ∧
      feed.lexemes = (ts ++ [finish]).map .ok := by
    rw [h]
    cases ts with
    | nil => exact ⟨_, rfl, rfl⟩
    | cons t ts => exact ⟨_, rfl, rfl⟩
  have hshows : feed.Shows (ts.map Token.word) ⟨.origin, finish, []⟩ :=
    ⟨ts, rfl, hlexemes.trans List.map_append⟩
  have hkind : finish.kind = .finish := congrArg Prod.fst hfinish
  obtain ⟨placed, mid, hread, -, hp⟩ := reads_read.complete hshows ⟨hrepeat, hne, hnodup⟩
    (decide_eq_false (not_not.mpr hkind))
  refine ⟨placed, ?_, hp⟩
  rw [parse, ofLexemes, hfeed]
  simp only [hread]
  rfl

/-- The words of a text that has no faults are those of a program of the grammar exactly if the text
is parsed to that program, and they are those of no other program. -/
theorem parse_iff_programForm (h : scan source = tokens.map .ok) (p : Program) :
    ((∃ placed, parse source = .ok placed ∧ placed.unplaced = p) ↔
      ProgramForm (tokens.map Token.word) p) ∧
    (ProgramForm (tokens.map Token.word) p →
      ∀ q, ProgramForm (tokens.map Token.word) q → q = p) := by
  refine ⟨⟨?_, parse_of_programForm h⟩, fun hp q hq => ?_⟩
  · rintro ⟨placed, hparse, rfl⟩
    obtain ⟨tokens', hscan, hform⟩ := programForm_of_parse hparse
    have hinj : Function.Injective (Except.ok : Token → Except SourceFault Token) :=
      fun _ _ => Except.ok.inj
    rwa [hinj.list_map (hscan.symm.trans h)] at hform
  · obtain ⟨placed, hparse, rfl⟩ := parse_of_programForm h hp
    obtain ⟨placed', hparse', rfl⟩ := parse_of_programForm h hq
    rw [Except.ok.inj (hparse'.symm.trans hparse)]

/-- A program whose names are the keywords, and whose lists end in commas. -/
def keywordNames : String :=
  "Main(x,) \x7b
  \x7ba: 1, b: -007,\x7d -> red
  red green
  toggle \x7b\x7d -> (toggle, as)
  display -> display display
  display -> display + 1 as then -> as
  x -> each < 1 then 1 as each -> y
  pulse(q = r,)
  #### title
\x7d"

/-- What this program is. -/
def keywordProgram : Program :=
  ⟨[⟨"Main", ["x"], [
    ⟨.constant .constant [("a", 1), ("b", -7)] ["red"], .nowhere⟩,
    ⟨.paint .red ["green"], .nowhere⟩,
    ⟨.constant .toggle [] ["toggle", "as"], .nowhere⟩,
    ⟨.display ["display"] "display", .nowhere⟩,
    ⟨.binary ["display"] ⟨.signal "display", .add, .literal 1, "then", false, .nowhere⟩ ["as"],
      .nowhere⟩,
    ⟨.binary ["x"] ⟨.signal "each", .lt, .literal 1, "each", true, .nowhere⟩ ["y"], .nowhere⟩,
    ⟨.instantiate "pulse" [⟨"q", "r", .nowhere⟩], .nowhere⟩,
    ⟨.label "title" 3, .nowhere⟩], .nowhere⟩]⟩

theorem parse_iff_programForm_keywordNames : ∃ tokens : List Token,
    scan keywordNames = tokens.map .ok ∧
      ∀ p, ProgramForm (tokens.map Token.word) p ↔ p = keywordProgram := by
  have hmap : ((parse keywordNames).toOption.map unplaced) = some keywordProgram := by
    decide +kernel
  cases hparse : parse keywordNames with
  | error fault =>
    rw [hparse] at hmap
    cases hmap
  | ok placed =>
    rw [hparse] at hmap
    obtain ⟨tokens, hscan, -⟩ := programForm_of_parse hparse
    have hiff := parse_iff_programForm hscan keywordProgram
    have hform := hiff.1.mp ⟨placed, hparse, Option.some.inj hmap⟩
    exact ⟨tokens, hscan, fun p => ⟨hiff.2 hform p, fun h => h ▸ hform⟩⟩

end Program

end CombinatorNet
