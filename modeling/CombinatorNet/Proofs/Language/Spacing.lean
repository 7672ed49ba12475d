import CombinatorNet.Proofs.Language.Recognition
import CombinatorNet.Proofs.Language.Tiling

/-!
# More space between tokens

Which words a text is made of depends on its gaps only where they keep lexemes apart. So blanks or
a comment can be put in front of any token: the lexeme before it ends there in any case, a line
comment before it has ended with its line, and the token itself does not see what is before it.

## Main definitions

* `Spells` — a text is made up of words with gaps around them
* `IsSpacing` — blanks, or a comment behind a space

## Main results

* `Spells.exists_scanFrom` — the words that a text is made up of are what is scanned
* `Tiles.spells_spaced` — spacing in front of a token leaves the words as they are
* `scan_spaced` — so it does not change what a text is scanned and parsed to
-/

namespace CombinatorNet

/-! ### Texts as words -/

/-- The text is made up of words, with a gap in front of each of them and one at the end. -/
inductive Spells : List Char → List Word → Prop
  | finish {gap : List Char} : Gap gap [] → Spells gap []
  | word {gap chars rest : List Char} {w : Word} {ws : List Word} :
      Gap gap (chars ++ rest) → w.Stands chars rest → Spells rest ws →
      Spells (gap ++ (chars ++ rest)) (w :: ws)

theorem Word.Stands.begins {w : Word} {chars rest : List Char} (h : w.Stands chars rest) :
    w.Begins (chars ++ rest) rest :=
  Word.begins_iff.mpr ⟨chars, rfl, h⟩

/-- A word starts with a character that does not end a line. -/
theorem Word.Stands.exists_cons {w : Word} {chars rest : List Char} (h : w.Stands chars rest) :
    ∃ c more, chars ++ rest = c :: more ∧ c ≠ '\n' := by
  obtain ⟨c, more, heq, hblank, -⟩ := h.begins
  refine ⟨c, more, heq, ?_⟩
  rintro rfl
  exact absurd hblank (by decide)

/-- The words that a text is made up of are what is scanned, wherever the text starts. -/
theorem Spells.exists_scanFrom {cs : List Char} {ws : List Word} (h : Spells cs ws)
    (p : Position) : ∃ tokens : List Token,
      scanFrom p cs = tokens.map .ok ∧ tokens.map Token.word = ws ++ [.sign .finish] := by
  induction h generalizing p with
  | @finish gap hgap =>
    have hscan := scanFrom_gap hgap p
    rw [List.append_nil] at hscan
    refine ⟨[.finish (p.after gap)], ?_, rfl⟩
    rw [hscan, scanFrom, splitBlank]
    rfl
  | @word gap chars rest w ws hgap hstands _ ih =>
    obtain ⟨t, p', ht, hfirst⟩ := scanFrom_of_begins hstands.begins (p.after gap)
    obtain ⟨tokens, hscan, hwords⟩ := ih p'
    refine ⟨t :: tokens, ?_, ?_⟩
    · rw [scanFrom_gap hgap, hfirst, hscan, List.map_cons]
    · rw [List.map_cons, ht, hwords, List.cons_append]

variable {before cs : List Char} {tokens : List Token}

/-- Where tokens tile a text, it is made up of their words. -/
theorem Tiles.spells (h : Tiles before cs (tokens.map .ok)) :
    Spells cs (tokens.map Token.word) := by
  generalize hxs : tokens.map Except.ok = xs at h
  induction h generalizing tokens with
  | finish hgap =>
    obtain rfl := List.map_eq_nil_iff.mp hxs
    exact .finish hgap
  | lexeme hgap _ _ hstands _ ih =>
    obtain ⟨t, tokens, rfl, rfl, rfl⟩ := List.map_eq_cons_iff.mp hxs
    exact .word hgap (hstands t rfl) (ih rfl)

/-! ### Spacing -/

/-- Blank characters, or a comment behind a space. -/
def IsSpacing (spacing : String) : Prop :=
  (∀ c ∈ spacing.toList, isBlank c = true) ∨
    ∃ body : String, spacing = " /*" ++ body ++ "*/" ∧ ¬ ['*', '/'] <:+: body.toList

theorem IsSpacing.gap {spacing : String} (h : IsSpacing spacing) (after : List Char) :
    Gap spacing.toList after := by
  rcases h with hblank | ⟨body, rfl, hbody⟩
  · exact gap_of_isBlank hblank
  · have hcomment : Gap (' ' :: '/' :: '*' :: (body.toList ++ '*' :: '/' :: [])) after :=
      .blank (by decide) (.block hbody .nil)
    simpa using hcomment

theorem IsSpacing.isBlank_head {spacing : String} (h : IsSpacing spacing) :
    ∀ c ∈ spacing.toList.head?, isBlank c = true := by
  rcases h with hblank | ⟨body, rfl, -⟩
  · exact fun c hc => hblank c (List.mem_of_mem_head? hc)
  · intro c hc
    obtain rfl : ' ' = c := by simpa using hc
    decide

/-- A word that ends in front of another one also ends in front of spacing before it. -/
theorem Word.EndsBefore.spaced {w : Word} {spacing : String} (hspacing : IsSpacing spacing)
    {c : Char} {cs : List Char} (hc : c ≠ '\n') (h : w.EndsBefore (c :: cs)) :
    w.EndsBefore (spacing.toList ++ c :: cs) := by
  have hblank := hspacing.isBlank_head
  cases hchars : spacing.toList with
  | nil => exact h
  | cons d ds =>
    rw [hchars] at hblank
    refine endsBefore_blank (hblank d rfl) (fun level hlevel => ?_) _
    -- A heading goes on to the end of its line, where no word starts.
    have hspoilt := h c rfl
    rw [SpoiltBy, hlevel] at hspoilt
    exact absurd (not_not.mp hspoilt) hc

/-- The gap in front of a word is one in front of any text. -/
theorem Word.Stands.gap_any {w : Word} {gap chars rest : List Char} (h : w.Stands chars rest)
    (hgap : Gap gap (chars ++ rest)) (after : List Char) : Gap gap after := by
  obtain ⟨c, more, hcons, hc⟩ := h.exists_cons
  rw [hcons] at hgap
  exact hgap.before_any hc after

/-- Of two parts at the start of a text, the one that ends at the later position goes on from the
other one. -/
theorem exists_append_of_offset_le {p : Position} {as bs ps qs : List Char}
    (h : ps ++ qs = as ++ bs) (hle : (p.after ps).offset ≤ (p.after as).offset) :
    ∃ more, as = ps ++ more ∧ qs = more ++ bs := by
  rcases List.append_eq_append_iff.mp h with h | ⟨more, rfl, rfl⟩
  · exact h
  · cases more with
    | nil => exact ⟨[], by simp, rfl⟩
    | cons c more =>
      have hlt := (p.after as).offset_lt_after (List.cons_ne_nil c more)
      rw [← Position.after_append] at hlt
      exact absurd hle (Nat.not_le_of_lt hlt)

/-- Two parts at the start of a text that end at the same position are the same. -/
theorem eq_of_offset_eq {p : Position} {as bs ps qs : List Char} (h : ps ++ qs = as ++ bs)
    (heq : (p.after ps).offset = (p.after as).offset) : as = ps ∧ bs = qs := by
  obtain ⟨more, rfl, rfl⟩ := exists_append_of_offset_le h heq.le
  cases more with
  | nil => simp
  | cons c more =>
    have hlt := (p.after ps).offset_lt_after (List.cons_ne_nil c more)
    rw [← Position.after_append] at hlt
    exact absurd heq hlt.ne

/-- Spacing in front of a token leaves the words of a text as they are. -/
theorem Tiles.spells_spaced {spacing : String} (hspacing : IsSpacing spacing)
    (h : Tiles before cs (tokens.map .ok)) {as bs : List Char} (hcs : cs = as ++ bs)
    {t : Token} (ht : t ∈ tokens)
    (hstart : t.span.start.offset = ((Position.origin.after before).after as).offset) :
    Spells (as ++ (spacing.toList ++ bs)) (tokens.map Token.word) ∧
      ∃ c more, bs = c :: more ∧ c ≠ '\n' := by
  generalize hxs : tokens.map Except.ok = xs at h
  -- By induction on the lexemes up to the token.
  induction h generalizing tokens as with
  | finish =>
    obtain rfl := List.map_eq_nil_iff.mp hxs
    cases ht
  | @lexeme before gap chars rest x xs hgap _ hplace hstands htiles ih =>
    obtain ⟨first, tokens, rfl, rfl, rfl⟩ := List.map_eq_cons_iff.mp hxs
    have hfirst := hstands first rfl
    rcases List.mem_cons.mp ht with rfl | ht
    · -- The token is the first one, so the spacing is behind the gap in front of it.
      have hplace' : t.span.start = .after .origin (before ++ gap) := congrArg Span.start hplace
      rw [hplace', Position.after_append] at hstart
      obtain ⟨rfl, rfl⟩ := eq_of_offset_eq hcs hstart
      rw [← List.append_assoc]
      exact ⟨.word ((hfirst.gap_any hgap _).append (hspacing.gap _)) hfirst htiles.spells,
        hfirst.exists_cons⟩
    · -- The token is behind the first one, which still ends where it did.
      have hbehind := htiles.precedes.1 t.span
        (List.mem_append_left _ (List.mem_map_of_mem (List.mem_map_of_mem ht)))
      rw [hstart, List.append_assoc, Position.after_append] at hbehind
      rw [← List.append_assoc] at hcs
      obtain ⟨as', rfl, rfl⟩ := exists_append_of_offset_le hcs hbehind
      have hstart' : t.span.start.offset =
          ((Position.origin.after (before ++ gap ++ chars)).after as').offset := by
        rw [hstart]
        simp only [Position.after_append]
      obtain ⟨hspells, c, more, rfl, hc⟩ := ih rfl ht hstart' rfl
      have hends : first.word.EndsBefore (as' ++ (spacing.toList ++ c :: more)) := by
        cases as' with
        | nil => exact hfirst.ends.spaced hspacing hc
        | cons d as' => exact hfirst.ends
      refine ⟨?_, c, more, rfl, hc⟩
      rw [List.append_assoc, List.append_assoc]
      exact .word (hfirst.gap_any hgap _) ⟨hfirst.lexed, hfirst.takes, hends⟩ hspells

/-! ### What becomes of the text -/

namespace Program

variable {source source' : String} {tokens tokens' : List Token}

/-- A text with the same words is parsed to the same program but for the places. -/
theorem exists_parse_of_words (h : scan source = tokens.map .ok)
    (h' : scan source' = tokens'.map .ok)
    (hwords : tokens'.map Token.word = tokens.map Token.word) {p : Program}
    (hparse : parse source = .ok p) :
    ∃ p', parse source' = .ok p' ∧ p'.unplaced = p.unplaced := by
  obtain ⟨read, hread, hform⟩ := programForm_of_parse hparse
  have hinj : Function.Injective (Except.ok : Token → Except SourceFault Token) :=
    fun _ _ => Except.ok.inj
  rw [hinj.list_map (hread.symm.trans h), ← hwords] at hform
  exact parse_of_programForm h' hform

/-- Texts with the same words are parsed to the same program but for the places, or to none. -/
theorem map_unplaced_parse_eq (h : scan source = tokens.map .ok)
    (h' : scan source' = tokens'.map .ok)
    (hwords : tokens'.map Token.word = tokens.map Token.word) :
    (parse source').toOption.map unplaced = (parse source).toOption.map unplaced := by
  cases hparse : parse source with
  | ok p =>
    obtain ⟨p', hparse', hp'⟩ := exists_parse_of_words h h' hwords hparse
    rw [hparse']
    exact congrArg some hp'
  | error e =>
    cases hparse' : parse source' with
    | error e' => rfl
    | ok p' =>
      obtain ⟨p, hparse'', -⟩ := exists_parse_of_words h' h hwords.symm hparse'
      rw [hparse] at hparse''
      cases hparse''

end Program

/-- Spacing in front of a token changes nothing but places: if a text is scanned without faults,
then so is the text with blanks, or with a comment behind a space, in front of any token but the end
of input. Its tokens are of the same kinds with the same texts, so that it is parsed to the same
program but for the places, or to none if the text is not. -/
theorem scan_spaced {before after spacing : String} {tokens : List Token} {t : Token}
    (hscan : scan (before ++ after) = tokens.map .ok) (ht : t ∈ tokens) (hkind : t.kind ≠ .finish)
    (hstart : t.span.start.offset = before.utf8ByteSize) (hspacing : IsSpacing spacing) :
    (∃ tokens' : List Token, scan (before ++ spacing ++ after) = tokens'.map .ok ∧
      tokens'.map Token.word = tokens.map Token.word) ∧
    (Program.parse (before ++ spacing ++ after)).toOption.map Program.unplaced =
      (Program.parse (before ++ after)).toOption.map Program.unplaced := by
  obtain ⟨xs, htiles, hxs⟩ := exists_tiles_scanFrom .origin (before ++ after).toList [] rfl
  -- The tokens are those that tile the text, and the end of input.
  obtain ⟨read, last, rfl, rfl, hlast⟩ := List.map_eq_append_iff.mp (hscan.symm.trans hxs)
  obtain ⟨finish, rfl, hfinish⟩ := List.map_eq_singleton_iff.mp hlast
  have hword : finish.word = .sign .finish := by
    rw [Except.ok.inj hfinish]
    rfl
  have hread : t ∈ read := by
    rcases List.mem_append.mp ht with h | h
    · exact h
    · rw [List.mem_singleton.mp h] at hkind
      exact absurd (congrArg Prod.fst hword) hkind
  have hoffset : t.span.start.offset = (Position.origin.after before.toList).offset := by
    have hcounts := (Position.counts_after before.toList).offset
    rw [String.ofList_toList] at hcounts
    rw [hstart, hcounts]
  have hspells := (htiles.spells_spaced hspacing String.toList_append hread hoffset).1
  obtain ⟨tokens', hscan', hwords⟩ := hspells.exists_scanFrom .origin
  have hspaced : scan (before ++ spacing ++ after) = tokens'.map .ok := by
    rw [scan, String.toList_append, String.toList_append, List.append_assoc]
    exact hscan'
  have hwords' : tokens'.map Token.word = (read ++ [finish]).map Token.word := by
    rw [hwords, List.map_append, List.map_singleton, hword]
  exact ⟨⟨tokens', hspaced, hwords'⟩, Program.map_unplaced_parse_eq hscan hspaced hwords'⟩

/-- A comment that looks like the start of another one is put behind a slash, in front of the
divisor. -/
theorem scan_spaced_division : ∃ tokens tokens' : List Token,
    scan ("M()\x7bA->a/" ++ "1 as a->B\x7d") = tokens.map .ok ∧
    scan ("M()\x7bA->a/" ++ " /*/**/" ++ "1 as a->B\x7d") = tokens'.map .ok ∧
    tokens'.map Token.word = tokens.map Token.word ∧ tokens.length = 15 ∧
    (Program.parse ("M()\x7bA->a/" ++ " /*/**/" ++ "1 as a->B\x7d")).toOption.map
        Program.unplaced =
      (Program.parse ("M()\x7bA->a/" ++ "1 as a->B\x7d")).toOption.map Program.unplaced ∧
    (Program.parse ("M()\x7bA->a/" ++ "1 as a->B\x7d")).toOption.isSome := by
  set tokens := (scan ("M()\x7bA->a/" ++ "1 as a->B\x7d")).filterMap Except.toOption with htokens
  have hscan : scan ("M()\x7bA->a/" ++ "1 as a->B\x7d") = tokens.map .ok := by
    rw [htokens]
    decide +kernel
  have hdivisor : ⟨.integer, "1", ⟨⟨9, 1, 10⟩, ⟨10, 1, 11⟩⟩⟩ ∈ tokens := by
    rw [htokens]
    decide +kernel
  have hspacing : IsSpacing " /*/**/" := .inr ⟨"/*", rfl, by decide⟩
  obtain ⟨⟨tokens', hscan', hwords⟩, hparse⟩ :=
    scan_spaced hscan hdivisor (by decide) (by decide) hspacing
  refine ⟨tokens, tokens', hscan, hscan', hwords, ?_, hparse, by decide +kernel⟩
  rw [htokens]
  decide +kernel

end CombinatorNet
