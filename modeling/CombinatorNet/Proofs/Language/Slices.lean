import CombinatorNet.Proofs.Language.Extents
import CombinatorNet.Proofs.Language.Spacing
import CombinatorNet.Proofs.Language.WellFormed
import Mathlib.Data.String.Basic

/-!
# The parts of a text that statements come from

The span of a statement cuts a statement out of the text. No token outside of it was needed to read
it, so that the part of the text between its ends is the same statement in the body of any other
network. The spans of the statements of a network follow each other behind the header.

## Main definitions

* `Span.slice`, `Span.Within` — the part of a text in a span, and spans inside of each other
* `Ordered` — tokens that stand behind each other

## Main results

* `Tiles.exists_slice` — the characters of some of the tokens are made up of their words
* `Program.exists_parse_main` — a network with one statement is parsed to it
* `Program.slices_of_parse` — the spans of statements are in order and cut out these statements
-/

namespace CombinatorNet

/-- The bytes of a text in a span. -/
def Span.slice (s : Span) (source : String) : String :=
  String.Pos.Raw.extract source ⟨s.start.offset⟩ ⟨s.stop.offset⟩

/-- The span is a part of another one. -/
structure Span.Within (s t : Span) : Prop where
  start : t.start.offset ≤ s.start.offset
  stop : s.stop.offset ≤ t.stop.offset

/-! ### Tokens in order -/

/-- Tokens that stand behind each other. -/
structure Ordered (ts : List Token) : Prop where
  ordered : ∀ t ∈ ts, t.span.start.offset ≤ t.span.stop.offset
  precedes : ts.Pairwise fun t u => t.span.Precedes u.span

theorem Ordered.sublist {us ts : List Token} (h : Ordered ts) (hus : us.Sublist ts) :
    Ordered us where
  ordered := fun t ht => h.ordered t (hus.subset ht)
  precedes := h.precedes.sublist hus

namespace Spans

variable {us ts : List Token} {s t : Span}

theorem eq (h : Spans ts s) (h' : Spans ts t) : s = t := by
  obtain ⟨first, hfirst, last, hlast, rfl⟩ := h
  obtain ⟨first', hfirst', last', hlast', rfl⟩ := h'
  obtain rfl := Option.mem_unique hfirst hfirst'
  obtain rfl := Option.mem_unique hlast hlast'
  rfl

theorem ne_nil (h : Spans ts s) : ts ≠ [] := by
  rintro rfl
  obtain ⟨_, hfirst, -⟩ := h
  cases hfirst

/-- Tokens in front of others have a span in front of theirs. -/
theorem precedes (h : Spans us s) (h' : Spans ts t)
    (hprecedes : ∀ x ∈ us, ∀ y ∈ ts, x.span.Precedes y.span) : s.Precedes t := by
  obtain ⟨first, hfirst, last, hlast, rfl⟩ := h
  obtain ⟨first', hfirst', last', -, rfl⟩ := h'
  have hfirst' := List.mem_of_mem_head? hfirst'
  exact ⟨(hprecedes first (List.mem_of_mem_head? hfirst) first' hfirst').1,
    (hprecedes last (List.mem_of_mem_getLast? hlast) first' hfirst').2⟩

/-- Tokens among others have a span in theirs. -/
theorem within (h : Spans us s) (h' : Spans ts t) (hus : us ⊆ ts) (hts : Ordered ts) :
    s.Within t := by
  obtain ⟨first, hfirst, last, hlast, rfl⟩ := h
  obtain ⟨first', hfirst', last', hlast', rfl⟩ := h'
  have hfirst := hus (List.mem_of_mem_head? hfirst)
  have hlast := hus (List.mem_of_mem_getLast? hlast)
  constructor
  · obtain ⟨more, rfl⟩ := List.head?_eq_some_iff.mp hfirst'
    rcases List.mem_cons.mp hfirst with rfl | hmem
    · exact Nat.le_refl _
    · exact ((List.pairwise_cons.mp hts.precedes).1 first hmem).1.le
  · obtain ⟨more, rfl⟩ := List.getLast?_eq_some_iff.mp hlast'
    rcases List.mem_append.mp hlast with hmem | hmem
    · have hstop := ((List.pairwise_append.mp hts.precedes).2.2 last hmem last'
        (List.mem_singleton_self _)).2
      exact hstop.trans (hts.ordered last' (List.mem_append_right _ (List.mem_singleton_self _)))
    · rw [List.mem_singleton.mp hmem]
      exact Nat.le_refl _

end Spans

/-- The tokens that tile a text stand behind each other. -/
theorem Tiles.ordered {source : String} {tokens : List Token}
    (h : Tiles [] source.toList (tokens.map .ok)) : Ordered tokens where
  ordered := by
    intro t ht
    obtain ⟨before, slice, after, -, -, hstart, hstop, -⟩ :=
      h.isSlice rfl (.ok t) (List.mem_map_of_mem ht)
    have hstart : t.span.start.offset = before.utf8ByteSize := hstart.offset
    have hstop : t.span.stop.offset = (before ++ slice).utf8ByteSize := hstop.offset
    rw [hstart, hstop, String.utf8ByteSize_append]
    exact Nat.le_add_right _ _
  precedes := by
    have hpairwise := (List.pairwise_append.mp h.precedes.2).1
    rwa [List.map_map, List.pairwise_map] at hpairwise

/-! ### The characters of some tokens -/

theorem Spells.gap {gap cs : List Char} {ws : List Word} (hgap : Gap gap cs) (h : Spells cs ws) :
    Spells (gap ++ cs) ws := by
  cases h with
  | finish hgap' =>
    rw [← List.append_nil cs] at hgap
    exact .finish (hgap.append hgap')
  | @word gap' chars rest w ws hgap' hstands hspells =>
    rw [← List.append_assoc]
    exact .word (hgap.append hgap') hstands hspells

/-- A text can be cut behind any of its lexemes. -/
theorem Tiles.exists_behind {before cs : List Char} {xs ys : List (Except SourceFault Token)}
    (h : Tiles before cs (xs ++ ys)) : ∃ as bs, cs = as ++ bs ∧ Tiles (before ++ as) bs ys := by
  induction xs generalizing before cs with
  | nil => exact ⟨[], cs, rfl, by rwa [List.append_nil]⟩
  | cons x xs ih =>
    cases h with
    | @lexeme _ gap chars rest _ _ _ _ _ _ htiles =>
      obtain ⟨as, bs, rfl, hbehind⟩ := ih htiles
      exact ⟨gap ++ (chars ++ as), bs, by simp, by simpa using hbehind⟩

/-- The characters from the first to the last of some tokens are those in their span, and in front
of the end of a line they are made up of their words. -/
theorem Tiles.exists_slice {before cs : List Char} {us : List Token}
    {xs : List (Except SourceFault Token)} (h : Tiles before cs (us.map .ok ++ xs))
    (hne : us ≠ []) : ∃ gap c chars rest, cs = gap ++ (c :: chars ++ rest) ∧
      Gap gap (c :: chars ++ rest) ∧ c ≠ '\n' ∧
      Spans us ⟨.after .origin (before ++ gap), .after .origin (before ++ gap ++ c :: chars)⟩ ∧
      ∀ tail ws, Spells ('\n' :: tail) ws →
        Spells (c :: chars ++ '\n' :: tail) (us.map Token.word ++ ws) := by
  induction us generalizing before cs with
  | nil => exact absurd rfl hne
  | cons t us ih =>
    cases h with
    | @lexeme _ gap chars rest _ _ hgap hchars hplace hstands htiles =>
      have hplace : t.span = ⟨.after .origin (before ++ gap),
        .after .origin (before ++ gap ++ chars)⟩ := hplace
      have hstands := hstands t rfl
      obtain ⟨c, chars, rfl⟩ := List.exists_cons_of_ne_nil hchars
      obtain ⟨d, more, hcons, hc⟩ := hstands.exists_cons
      rw [← (List.cons.inj hcons).1] at hc
      cases us with
      | nil =>
        refine ⟨gap, c, chars, rest, rfl, hgap, hc, ⟨t, rfl, t, rfl, hplace.symm⟩,
          fun tail ws hspells => ?_⟩
        have hends : t.word.EndsBefore ('\n' :: tail) :=
          Word.endsBefore_blank (by decide) (fun _ _ => rfl) tail
        exact .word .nil ⟨hstands.lexed, hstands.takes, hends⟩ hspells
      | cons u us =>
        obtain ⟨gap', c', chars', rest', rfl, hgap', hc', ⟨first, hfirst, last, hlast, hspan⟩,
          hspells⟩ := ih htiles (List.cons_ne_nil _ _)
        refine ⟨gap, c, chars ++ (gap' ++ c' :: chars'), rest', by simp, by simpa using hgap, hc,
          ?_, fun tail ws htail => ?_⟩
        · have hstop : last.span.stop =
              .after .origin (before ++ gap ++ c :: chars ++ gap' ++ c' :: chars') :=
            (congrArg Span.stop hspan).symm
          refine ⟨t, rfl, last, hlast, ?_⟩
          rw [hplace, Span.upTo, hstop]
          simp
        · -- The first token ends in front of the same character as before.
          have hends : t.word.EndsBefore (gap' ++ (c' :: chars' ++ '\n' :: tail)) := by
            intro d hd
            refine hstands.ends d ?_
            cases gap' <;> exact hd
          have hgap' : Gap gap' (c' :: chars' ++ '\n' :: tail) := hgap'.before_any hc' _
          have hword := Spells.word (w := t.word) .nil ⟨hstands.lexed, hstands.takes, hends⟩
            ((hspells tail ws htail).gap hgap')
          simpa using hword

/-- The slice of a span between two cuts of a text. -/
theorem Span.slice_eq {source : String} {as bs cs : List Char}
    (h : source.toList = as ++ bs ++ cs) :
    Span.slice ⟨.after .origin as, .after .origin (as ++ bs)⟩ source = String.ofList bs := by
  have hoffset (cs : List Char) : (Position.origin.after cs).offset = String.utf8Len cs :=
    (Position.counts_after cs).offset.trans (String.utf8ByteSize_ofList cs)
  rw [slice, hoffset, hoffset, String.utf8Len_append, ← String.ofList_toList (s := source), h]
  exact String.extract_of_valid as bs cs

/-- The tokens of a text without faults tile it, but for the end of input. -/
theorem tiles_of_scan {source : String} {tokens : List Token} {last : Token}
    (h : scan source = (tokens ++ [last]).map .ok) : Tiles [] source.toList (tokens.map .ok) := by
  obtain ⟨xs, htiles, hxs⟩ := exists_tiles_scanFrom .origin source.toList [] rfl
  have heq := h.symm.trans hxs
  rw [List.map_append, List.map_singleton] at heq
  rwa [List.append_inj_left' heq rfl]

/-- The part of a text from the first to the last of some tokens is made up of their words. -/
theorem Tiles.exists_slice_eq {source : String} {tokens us : List Token}
    (htiles : Tiles [] source.toList (tokens.map .ok)) (hus : us <:+: tokens) {span : Span}
    (hspan : Spans us span) : ∃ chars, span.slice source = String.ofList chars ∧
      ∀ tail ws, Spells ('\n' :: tail) ws →
        Spells (chars ++ '\n' :: tail) (us.map Token.word ++ ws) := by
  obtain ⟨front, back, rfl⟩ := hus
  rw [List.map_append, List.map_append, List.append_assoc] at htiles
  obtain ⟨as, bs, hsource, htiles⟩ := htiles.exists_behind
  obtain ⟨gap, c, chars, rest, rfl, -, -, hspan', hspells⟩ := htiles.exists_slice hspan.ne_nil
  refine ⟨c :: chars, ?_, hspells⟩
  have hcut : source.toList = [] ++ as ++ gap ++ c :: chars ++ rest := by simp [hsource]
  rw [hspan.eq hspan']
  exact Span.slice_eq hcut

/-! ### Networks with one statement -/

namespace Spells

variable {cs : List Char} {ws : List Word} {w : Word}

theorem blank (h : Spells cs ws) {c : Char} (hc : isBlank c = true) : Spells (c :: cs) ws :=
  h.gap (gap_of_isBlank (List.forall_mem_singleton.mpr hc))

/-- A word other than a heading is written as its text. -/
theorem cons (h : Spells cs ws) (hlexed : w.Lexed) (hkind : ∀ level, w.1 ≠ .heading level)
    (hends : w.EndsBefore cs) : Spells (w.2.toList ++ cs) (w :: ws) := by
  have htakes : w.Takes w.2.toList := by
    obtain ⟨kind, text⟩ := w
    cases kind with
    | heading level => exact absurd rfl (hkind level)
    | _ => exact rfl
  exact .word .nil ⟨hlexed, htakes, hends⟩ h

/-- A sign is read whatever is behind it. -/
theorem sign (h : Spells cs ws) (kind : TokenKind) (hsign : kind.isSign = true)
    (hne : kind ≠ .finish) : Spells ((Word.signText kind).toList ++ cs) (.sign kind :: ws) := by
  show Spells ((Word.sign kind).2.toList ++ cs) _
  refine h.cons ?_ ?_ ?_
  · cases kind with
    | identifier | integer | operator | heading => cases hsign
    | finish => exact absurd rfl hne
    | _ => exact rfl
  · rintro level hlevel
    obtain rfl : kind = .heading level := hlevel
    cases hsign
  · intro c _ hspoilt
    cases kind with
    | identifier | integer | operator | heading => cases hsign
    | _ => exact hspoilt

end Spells

/-- The end of a network. -/
theorem spells_closeBrace : Spells ['\x7d'] [.sign .closeBrace] :=
  (Spells.finish .nil).sign .closeBrace rfl nofun

/-- A network with one statement is parsed to it. -/
theorem Program.exists_parse_main {body : String} {ws : List Word} {s : Statement}
    (hspells : Spells body.toList (ws ++ [.sign .closeBrace])) (hform : StatementForm ws s) :
    ∃ q, parse ("Main() \x7b" ++ body) = .ok q ∧
      q.unplaced = ⟨[⟨"Main", [], [s], .nowhere⟩]⟩ := by
  have hmain : Spells ("Main() \x7b" ++ body).toList (.name "Main" :: .sign .openParen ::
      .sign .closeParen :: .sign .openBrace :: (ws ++ [.sign .closeBrace])) := by
    have hbrace : Spells ('{' :: body.toList) (.sign .openBrace :: _) :=
      hspells.sign .openBrace rfl nofun
    have hclose : Spells (')' :: ' ' :: '{' :: body.toList) (.sign .closeParen :: _) :=
      (hbrace.blank (by decide)).sign .closeParen rfl nofun
    have hopen : Spells ('(' :: ')' :: ' ' :: '{' :: body.toList) (.sign .openParen :: _) :=
      hclose.sign .openParen rfl nofun
    have hidentifier : IsIdentifier "Main" := by decide +kernel
    have hname : (Word.name "Main").Lexed := hidentifier
    have hends : (Word.name "Main").EndsBefore ('(' :: ')' :: ' ' :: '{' :: body.toList) := by
      intro c hc
      obtain rfl : '(' = c := Option.some_inj.mp hc
      show ¬ Lexeme.inName '('
      decide +kernel
    rw [String.toList_append]
    exact hopen.cons hname nofun hends
  obtain ⟨tokens, hscan, hwords⟩ := hmain.exists_scanFrom .origin
  refine parse_of_programForm hscan ?_
  have htemplate : TemplateForm (.name "Main" :: .sign .openParen :: .sign .closeParen ::
      .sign .openBrace :: (ws ++ [.sign .closeBrace])) ⟨"Main", [], [s], .nowhere⟩ := by
    have hbody := RepeatForm.cons hform .nil
    rw [List.append_nil] at hbody
    exact .mk "Main" .nil List.nodup_nil hbody
  have hprogram := ProgramForm.mk (.cons htemplate .nil) (List.cons_ne_nil _ _)
    (List.pairwise_singleton _ _)
  rw [List.append_nil] at hprogram
  rw [hwords]
  exact hprogram

/-! ### The statements of a program -/

theorem Template.MadeOf.pairwise_precedes {t : Template} {ts : List Token} (h : t.MadeOf ts)
    (hts : Ordered ts) : (t.span :: t.body.map (·.span)).Pairwise Span.Precedes := by
  obtain ⟨us, vs, ws, items, rfl, hus, hbody, hitems⟩ := h
  -- The header stands before all statements, and each of these before the next one.
  have hprecedes := (List.pairwise_append.mp hts.precedes).1
  obtain ⟨-, hstatements, hheader⟩ := List.pairwise_append.mp hprecedes
  rw [hbody, List.map_map, List.pairwise_cons, List.forall_mem_map, List.pairwise_map]
  constructor
  · intro i hi
    refine hus.precedes (hitems i hi).span fun x hx y hy => ?_
    exact hheader x (List.mem_append_left _ hx) y
      (List.mem_flatten.mpr ⟨i.1, List.mem_map_of_mem hi, hy⟩)
  · have hapart := (List.pairwise_flatten.mp hstatements).2
    rw [List.pairwise_map] at hapart
    exact hapart.imp_of_mem fun hi hj h => (hitems _ hi).span.precedes (hitems _ hj).span h

theorem Template.MadeOf.exists_statement {t : Template} {ts : List Token} (h : t.MadeOf ts)
    {s : Statement} (hs : s ∈ t.body) : ∃ us, us <:+: ts ∧ s.MadeOf us := by
  obtain ⟨us, vs, ws, items, rfl, -, hbody, hitems⟩ := h
  rw [hbody] at hs
  obtain ⟨i, hi, rfl⟩ := List.mem_map.mp hs
  have hflat : i.1 <:+: (items.map Prod.fst).flatten :=
    List.infix_of_mem_flatten (List.mem_map_of_mem hi)
  exact ⟨i.1, hflat.trans ⟨us ++ vs, ws, rfl⟩, hitems i hi⟩

theorem Statement.MadeOf.within {s : Statement} {ts : List Token} (h : s.MadeOf ts)
    (hts : Ordered ts) : ∀ span ∈ s.request.spans, span.Within s.span := by
  intro span hspan
  obtain ⟨us, hus, hspan⟩ := h.places span hspan
  exact hspan.within h.span hus.subset hts

/-- The spans of the statements of a network are behind that of its header, each behind the one
before it, the expressions and bindings in a statement lie inside of it, and what stands in the span
of a statement is by itself parsed to this statement, in a network without others. -/
theorem Program.slices_of_parse {source : String} {p : Program} (h : parse source = .ok p) :
    ∀ t ∈ p.templates, (t.span :: t.body.map (·.span)).Pairwise Span.Precedes ∧
      ∀ s ∈ t.body, (∀ span ∈ s.request.spans, span.Within s.span) ∧
        ∃ q, parse ("Main() \x7b" ++ s.span.slice source ++ "\n\x7d") = .ok q ∧
          q.unplaced = ⟨[⟨"Main", [], [s.unplaced], .nowhere⟩]⟩ := by
  intro t ht
  obtain ⟨items, finish, hscan, htemplates, hitems⟩ := exists_madeOf_of_parse h
  have htiles := tiles_of_scan hscan
  rw [htemplates] at ht
  obtain ⟨i, hi, rfl⟩ := List.mem_map.mp ht
  have hwithin : i.1 <:+: (items.map Prod.fst).flatten :=
    List.infix_of_mem_flatten (List.mem_map_of_mem hi)
  have hordered : Ordered i.1 := htiles.ordered.sublist hwithin.sublist
  refine ⟨(hitems i hi).pairwise_precedes hordered, fun s hs => ?_⟩
  obtain ⟨us, hus, hmade⟩ := (hitems i hi).exists_statement hs
  refine ⟨hmade.within (hordered.sublist hus.sublist), ?_⟩
  obtain ⟨chars, hslice, hspells⟩ := htiles.exists_slice_eq (hus.trans hwithin) hmade.span
  have hbody : Spells (String.ofList chars ++ "\n\x7d").toList
      (us.map Token.word ++ [.sign .closeBrace]) := by
    rw [String.toList_append, String.toList_ofList]
    exact hspells _ _ (spells_closeBrace.blank (by decide))
  rw [hslice, String.append_assoc]
  exact exists_parse_main hbody hmade.form

/-- A program with a comment inside of a statement, and with statements that follow each other
closely. -/
def neighbours : String :=
  "Sub(W) \x7b\x7ba: 1\x7d -> W\x7d Main(A) \x7bA -> x /* - */ - -1 as y -> (B)Sub(W = A)## t\n\x7d"

theorem Program.slices_of_parse_neighbours : ∃ p, parse neighbours = .ok p ∧
    p.templates.map (fun t => t.body.map fun s => s.span.slice neighbours) =
      [["\x7ba: 1\x7d -> W"], ["A -> x /* - */ - -1 as y -> (B)", "Sub(W = A)", "## t"]] ∧
    ∀ t ∈ p.templates, ∀ s ∈ t.body,
      ∃ q, parse ("Main() \x7b" ++ s.span.slice neighbours ++ "\n\x7d") = .ok q ∧
        q.unplaced = ⟨[⟨"Main", [], [s.unplaced], .nowhere⟩]⟩ := by
  have hslices : (parse neighbours).toOption.map (fun p =>
      p.templates.map fun t => t.body.map fun s => s.span.slice neighbours) =
      some [["\x7ba: 1\x7d -> W"], ["A -> x /* - */ - -1 as y -> (B)", "Sub(W = A)", "## t"]] := by
    decide +kernel
  cases hparse : parse neighbours with
  | error fault =>
    rw [hparse] at hslices
    cases hslices
  | ok p =>
    rw [hparse] at hslices
    exact ⟨p, rfl, Option.some.inj hslices, fun t ht s hs =>
      ((slices_of_parse hparse t ht).2 s hs).2⟩

end CombinatorNet
