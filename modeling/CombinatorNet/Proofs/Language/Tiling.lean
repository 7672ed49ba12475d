import CombinatorNet.Proofs.Language.Gaps
import CombinatorNet.Proofs.Language.Places

/-!
# The tiling of a text by its lexemes

Scanning cuts a text into lexemes and the gaps between them, and nothing of it is lost or taken
twice. A token takes its characters up to where the text cannot go on with it, and a fault takes at
least one character, so that the scanner goes on behind it.

## Main definitions

* `Word.Stands` — the characters of a word, in front of a text where it can end
* `Tiles` — lexemes and gaps make up a text, behind some characters of it
* `IsSlice`, `Span.Precedes`, `Span.Separated` — lexemes are parts of a text, in their order, with
  only gaps between them
* `TiledBy` — all this is true of the lexemes of a text

## Main results

* `Word.begins_iff` — a word is read just where it stands
* `exists_tiles_scanFrom` — the lexemes of a text tile it
* `exists_tiledBy_scan` — the spans of the lexemes cover a text but for blanks and comments
-/

namespace CombinatorNet

/-- Some characters are those of a word, which ends in front of a text. -/
structure Word.Stands (w : Word) (chars rest : List Char) : Prop where
  lexed : w.Lexed
  takes : w.Takes chars
  ends : w.EndsBefore rest

/-! ### Where a lexeme ends -/

namespace Lexeme

variable {c : Char} {cs chars rest : List Char} {kind : TokenKind}

/-- If the lexeme is a token, it takes the characters of its word and ends where the word can. -/
def Cuts (l : Lexeme) : Prop :=
  ∀ w, l.reading = .ok w → Word.Takes w l.chars ∧ Word.EndsBefore w l.rest

theorem cuts_fault (cause : SyntaxFault) : (fault cause chars rest).Cuts :=
  fun _ h => nomatch h

theorem cuts_plain (hkind : ∀ level, kind ≠ .heading level)
    (hends : Word.EndsBefore (kind, String.ofList chars) rest) : (plain kind chars rest).Cuts := by
  intro w h
  cases h
  refine ⟨?_, hends⟩
  cases kind with
  | heading level => exact absurd rfl (hkind level)
  | _ => exact String.toList_ofList.symm

theorem cuts_kindOfChar (hkind : kindOfChar? c = some kind)
    (hslash : c = '/' → ∀ d ∈ cs.head?, d ≠ '/' ∧ d ≠ '*') : (plain kind [c] cs).Cuts := by
  have hdiv : c = '/' → ∀ d ∈ cs.head?, d ∉ ['/', '*'] := fun hc d hd => by
    simpa using hslash hc d hd
  unfold kindOfChar? at hkind
  -- Only a slash can be followed by a character that makes something else of it.
  split at hkind <;> cases hkind <;> refine cuts_plain (by simp) fun d hd hspoilt => ?_ <;> first
    | exact hspoilt
    | exact hdiv rfl d hd hspoilt
    | cases hspoilt

theorem cuts_minus (cs : List Char) : (minus cs).Cuts := by
  rw [minus.eq_def]
  split
  · exact cuts_plain (by simp) fun _ _ hspoilt => hspoilt
  · next hne =>
    refine cuts_plain (by simp) fun d hd hspoilt => ?_
    obtain rfl : d = '>' := List.mem_singleton.mp hspoilt
    obtain ⟨more, rfl⟩ := List.head?_eq_some_iff.mp hd
    exact hne more rfl

theorem cuts_exclamation (cs : List Char) : (exclamation cs).Cuts := by
  rw [exclamation.eq_def]
  split
  · exact cuts_plain (by simp) fun _ _ hspoilt => List.not_mem_nil hspoilt
  · exact cuts_fault _

theorem cuts_angle (hc : c = '<' ∨ c = '>') (cs : List Char) : (angle c cs).Cuts := by
  have hdouble : ∀ d, d = '=' ∨ d = c → operatorFollowers (String.ofList [c, d]) = [] := by
    rintro d (rfl | rfl) <;> rcases hc with rfl | rfl <;> rfl
  have hsingle : operatorFollowers (String.ofList [c]) = [c, '='] := by
    rcases hc with rfl | rfl <;> rfl
  cases cs with
  | nil => exact cuts_plain (by simp) fun _ hd => nomatch hd
  | cons d cs =>
    rw [angle]
    split
    · next hd =>
      refine cuts_plain (by simp) fun _ _ hspoilt => ?_
      change _ ∈ operatorFollowers _ at hspoilt
      rw [hdouble d hd] at hspoilt
      cases hspoilt
    · next hd =>
      refine cuts_plain (by simp) fun d' hd' hspoilt => hd ?_
      obtain rfl : d = d' := Option.some_inj.mp hd'
      change _ ∈ operatorFollowers _ at hspoilt
      rw [hsingle] at hspoilt
      simpa [or_comm] using hspoilt

theorem cuts_heading (cs : List Char) : (heading cs).Cuts := by
  intro w h
  cases h
  have hmarks : cs.takeWhile (· == '#') =
      List.replicate (cs.takeWhile (· == '#')).length '#' :=
    List.eq_replicate_of_mem fun c hc => by simpa using List.mem_takeWhile_imp hc
  refine ⟨⟨_, _, congrArg (· ++ _) hmarks, rfl, fun hmark => ?_, fun hmem => ?_, rfl⟩, ?_⟩
  · -- What is behind the marks does not start with another one, and so neither does its line.
    have hbehind : '#' ∈ (cs.dropWhile (· == '#')).head? := by
      cases hdrop : cs.dropWhile (· == '#') with
      | nil =>
        rw [hdrop] at hmark
        cases hmark
      | cons d ds =>
        rw [hdrop, List.takeWhile_cons] at hmark
        split at hmark
        · exact hmark
        · cases hmark
    simpa using eq_false_of_mem_head?_dropWhile hbehind
  · simpa using List.mem_takeWhile_imp hmem
  · intro c hc hspoilt
    exact hspoilt (by simpa using eq_false_of_mem_head?_dropWhile hc)

theorem cuts_digits (cs : List Char) : (digits cs).Cuts := by
  simp only [digits]
  split
  · exact cuts_plain (by simp) fun _ hd => nomatch hd
  · next c rest hdrop =>
    have hhead : c ∈ (cs.dropWhile Char.isDigit).head? := by
      rw [hdrop]
      rfl
    have hdigit := eq_false_of_mem_head?_dropWhile hhead
    split
    · exact cuts_fault _
    · next hname =>
      refine cuts_plain (by simp) fun d hd hspoilt => ?_
      obtain rfl : c = d := Option.some_inj.mp hd
      rcases hspoilt with h | h
      · rw [hdigit] at h
        cases h
      · exact hname h

theorem cuts_name (cs : List Char) : (name cs).Cuts := by
  refine cuts_plain (by simp) fun d hd hspoilt => ?_
  have hin : inName d = false := eq_false_of_mem_head?_dropWhile hd
  rw [show inName d = true from hspoilt] at hin
  cases hin

/-- A token in front of no comment ends where its word can. -/
theorem cuts_read (hcomment : comment? (c :: cs) = none) : (read c cs).Cuts := by
  rw [read]
  -- The cases in the order in which the reader tries them.
  split
  · exact cuts_fault _
  · next hopen =>
    split
    · next kind hkind =>
      refine cuts_kindOfChar hkind ?_
      rintro rfl d hd
      refine ⟨?_, fun heq => hopen ⟨rfl, heq ▸ hd⟩⟩
      rintro rfl
      obtain ⟨more, rfl⟩ := List.head?_eq_some_iff.mp hd
      cases hcomment
    · split
      · exact cuts_minus cs
      · split
        · exact cuts_exclamation cs
        · split
          · next hc => exact cuts_angle hc cs
          · split
            · exact cuts_heading _
            · split
              · exact cuts_digits _
              · split
                · exact cuts_name _
                · exact cuts_fault _

end Lexeme

/-- A word is read just where its characters stand, and where it can end. -/
theorem Word.begins_iff {w : Word} {cs rest : List Char} :
    w.Begins cs rest ↔ ∃ chars, cs = chars ++ rest ∧ w.Stands chars rest := by
  constructor
  · rintro ⟨c, cs, rfl, -, hcomment, hreading, rfl⟩
    obtain ⟨htakes, hends⟩ := Lexeme.cuts_read hcomment w hreading
    exact ⟨_, (Lexeme.read_append c cs).symm, lexed_of_read hreading, htakes, hends⟩
  · rintro ⟨chars, rfl, hlexed, htakes, hends⟩
    exact hlexed.begins htakes hends

/-! ### Tilings -/

/-- What is left of a text behind some characters of it is made up of lexemes at their places, with
a gap in front of each of them and one at the end. -/
inductive Tiles : List Char → List Char → List (Except SourceFault Token) → Prop
  | finish {before gap : List Char} : Gap gap [] → Tiles before gap []
  | lexeme {before gap chars rest : List Char} {x : Except SourceFault Token}
      {xs : List (Except SourceFault Token)} :
      Gap gap (chars ++ rest) → chars ≠ [] →
      placeOf x = ⟨.after .origin (before ++ gap), .after .origin (before ++ gap ++ chars)⟩ →
      (∀ t, x = .ok t → t.word.Stands chars rest) →
      Tiles (before ++ gap ++ chars) rest xs → Tiles before (gap ++ (chars ++ rest)) (x :: xs)

/-- What is read at a place are the characters of its word. -/
private theorem stands_of_locate {c : Char} {cs : List Char} (hcomment : comment? (c :: cs) = none)
    {span : Span} {t : Token} (h : (Lexeme.read c cs).locate span = .ok t) :
    t.word.Stands (Lexeme.read c cs).chars (Lexeme.read c cs).rest := by
  have hlexed := lexed_of_locate h
  rw [Lexeme.locate] at h
  split at h
  · next kind text hreading =>
    cases h
    obtain ⟨htakes, hends⟩ := Lexeme.cuts_read hcomment _ hreading
    exact ⟨hlexed, htakes, hends⟩
  · cases h

/-- The lexemes of a text and the end of input tile it. -/
theorem exists_tiles_scanFrom (p : Position) (cs : List Char) :
    ∀ before, p = .after .origin before → ∃ xs, Tiles before cs xs ∧
      scanFrom p cs = xs ++ [.ok (.finish (.after .origin (before ++ cs)))] := by
  -- By induction on the scan, which goes on with the characters of each lexeme before it.
  fun_induction scanFrom p cs with
  | case1 p cs gap hsplit =>
    rintro before rfl
    obtain ⟨rfl, hgap, -⟩ := cut_of_splitBlank hsplit
    rw [List.append_nil, ← Position.after_append]
    exact ⟨[], .finish hgap, rfl⟩
  | case2 p cs gap c rest hsplit lexeme start stop ih =>
    rintro before rfl
    obtain ⟨rfl, hgap, hcomment⟩ := cut_of_splitBlank hsplit
    have hcut : lexeme.chars ++ lexeme.rest = c :: rest := Lexeme.read_append c rest
    have hstart : start = .after .origin (before ++ gap) := (Position.after_append _ _ _).symm
    have hstop : stop = .after .origin (before ++ gap ++ lexeme.chars) := by
      rw [Position.after_append, ← hstart]
    obtain ⟨xs, htiles, hscan⟩ := ih _ hstop
    rw [← hcut] at hgap ⊢
    have hplace : placeOf (lexeme.locate ⟨start, stop⟩) =
        ⟨.after .origin (before ++ gap), .after .origin (before ++ gap ++ lexeme.chars)⟩ := by
      rw [placeOf_locate, hstart, hstop]
    refine ⟨lexeme.locate ⟨start, stop⟩ :: xs, .lexeme hgap (Lexeme.chars_ne_nil c rest) hplace
      (fun t ht => stands_of_locate hcomment ht) htiles, ?_⟩
    rw [hscan, List.cons_append, List.append_assoc, List.append_assoc]

/-! ### Spans -/

theorem Position.offset_lt_after (p : Position) {cs : List Char} (h : cs ≠ []) :
    p.offset < (p.after cs).offset := by
  obtain ⟨c, cs, rfl⟩ := List.exists_cons_of_ne_nil h
  have hle := (p.next c).offset_le_after cs
  have hpos := c.utf8Size_pos
  rw [offset_next] at hle
  rw [after_cons]
  omega

/-- The span starts and ends before another one starts. -/
def Span.Precedes (s t : Span) : Prop :=
  s.start.offset < t.start.offset ∧ s.stop.offset ≤ t.start.offset

/-- Between two spans of a text there are only blanks and comments. -/
def Span.Separated (source : String) (s t : Span) : Prop :=
  ∃ before gap after : String, source = before ++ gap ++ after ∧ s.stop.Counts before ∧
    t.start.Counts (before ++ gap) ∧ Gap gap.toList after.toList

/-- The spans of lexemes, and that of the end of input. -/
def spansTo (finish : Position) (xs : List (Except SourceFault Token)) : List Span :=
  xs.map placeOf ++ [⟨finish, finish⟩]

/-- The lexeme is a part of a text. A token stands there, and is not the end of input. -/
def IsSlice (source : String) (x : Except SourceFault Token) : Prop :=
  ∃ before slice after : String, source = before ++ slice ++ after ∧ slice ≠ "" ∧
    (placeOf x).start.Counts before ∧ (placeOf x).stop.Counts (before ++ slice) ∧
    ∀ t, x = .ok t → t.kind ≠ .finish ∧ t.word.Stands slice.toList after.toList

private theorem eq_append_of_toList {source : String} {as bs cs : List Char}
    (h : source.toList = as ++ bs ++ cs) :
    source = String.ofList as ++ String.ofList bs ++ String.ofList cs := by
  rw [← String.ofList_append, ← String.ofList_append, ← h, String.ofList_toList]

namespace Tiles

variable {before cs : List Char} {xs : List (Except SourceFault Token)} {source : String}

theorem length_le (h : Tiles before cs xs) : xs.length ≤ cs.length := by
  induction h with
  | finish => exact Nat.zero_le _
  | lexeme _ hne _ _ _ ih =>
    have hpos := List.length_pos_of_ne_nil hne
    rw [List.length_cons, List.length_append, List.length_append]
    omega

theorem isSlice (h : Tiles before cs xs) (hsource : source.toList = before ++ cs) :
    ∀ x ∈ xs, IsSlice source x := by
  induction h with
  | finish => exact fun _ hx => nomatch hx
  | @lexeme before gap chars rest x xs _ hne hplace hstands _ ih =>
    have hcut : source.toList = before ++ gap ++ chars ++ rest := by simp [hsource]
    refine List.forall_mem_cons.mpr ⟨?_, ih hcut⟩
    refine ⟨_, _, _, eq_append_of_toList hcut, ?_, ?_, ?_, fun t ht => ⟨fun hkind => ?_, ?_⟩⟩
    · rwa [Ne, ← String.toList_eq_nil_iff, String.toList_ofList]
    · rw [hplace]
      exact Position.counts_after _
    · rw [hplace, ← String.ofList_append]
      exact Position.counts_after _
    · have hlexed := (hstands t ht).lexed
      rw [Word.Lexed, show t.word.1 = .finish from hkind] at hlexed
      exact hlexed
    · rw [String.toList_ofList, String.toList_ofList]
      exact hstands t ht

/-- All that follows starts behind what comes before, and each lexeme before the next one. -/
theorem precedes (h : Tiles before cs xs) :
    (∀ s ∈ spansTo (.after .origin (before ++ cs)) xs,
      (Position.origin.after before).offset ≤ s.start.offset) ∧
    (spansTo (.after .origin (before ++ cs)) xs).Pairwise Span.Precedes := by
  induction h with
  | @finish before gap _ =>
    refine ⟨List.forall_mem_singleton.mpr ?_, List.pairwise_singleton _ _⟩
    rw [Position.after_append]
    exact Position.offset_le_after _ _
  | @lexeme before gap chars rest x xs _ hne hplace _ _ ih =>
    obtain ⟨hbehind, hpairwise⟩ := ih
    have hwhole : before ++ (gap ++ (chars ++ rest)) = before ++ gap ++ chars ++ rest := by simp
    have hstart : (Position.origin.after before).offset ≤ (placeOf x).start.offset := by
      rw [hplace, Position.after_append]
      exact Position.offset_le_after _ _
    have hlt : (placeOf x).start.offset < (placeOf x).stop.offset := by
      rw [hplace, Position.after_append _ (before ++ gap)]
      exact Position.offset_lt_after _ hne
    have hstop : (placeOf x).stop.offset =
        (Position.origin.after (before ++ gap ++ chars)).offset := by rw [hplace]
    rw [hwhole]
    refine ⟨List.forall_mem_cons.mpr ⟨hstart, fun s hs => ?_⟩,
      List.pairwise_cons.mpr ⟨fun s hs => ?_, hpairwise⟩⟩
    · have hle := hbehind s hs
      omega
    · have hle := hbehind s hs
      exact ⟨by omega, by omega⟩

/-- There are only gaps between the spans, and in front of the first one. -/
theorem separated (h : Tiles before cs xs) (hsource : source.toList = before ++ cs) {s : Span}
    (hs : s.stop = .after .origin before) :
    (s :: spansTo (.after .origin (before ++ cs)) xs).IsChain (Span.Separated source) := by
  induction h generalizing s with
  | @finish before gap hgap =>
    refine List.isChain_cons_cons.mpr ⟨?_, .singleton _⟩
    have hcut : source.toList = before ++ gap ++ [] := by simp [hsource]
    refine ⟨_, _, _, eq_append_of_toList hcut, hs ▸ Position.counts_after _, ?_, ?_⟩
    · rw [← String.ofList_append]
      exact Position.counts_after _
    · rw [String.toList_ofList, String.toList_ofList]
      exact hgap
  | @lexeme before gap chars rest x xs hgap _ hplace _ _ ih =>
    have hwhole : before ++ (gap ++ (chars ++ rest)) = before ++ gap ++ chars ++ rest := by simp
    have hcut : source.toList = before ++ gap ++ (chars ++ rest) := by simp [hsource]
    rw [hwhole] at hsource ⊢
    refine List.isChain_cons_cons.mpr ⟨?_, ih hsource (by rw [hplace])⟩
    refine ⟨_, _, _, eq_append_of_toList hcut, hs ▸ Position.counts_after _, ?_, ?_⟩
    · rw [hplace, ← String.ofList_append]
      exact Position.counts_after _
    · rw [String.toList_ofList, String.toList_ofList]
      exact hgap

end Tiles

/-- The lexemes in front of the end of input are parts of a text, one behind the other, with only
gaps between them. -/
structure TiledBy (source : String) (xs : List (Except SourceFault Token)) (finish : Position) :
    Prop where
  length_le : xs.length ≤ source.length
  counts : finish.Counts source
  slices : ∀ x ∈ xs, IsSlice source x
  precedes : (spansTo finish xs).Pairwise Span.Precedes
  separated : (⟨.origin, .origin⟩ :: spansTo finish xs).IsChain (Span.Separated source)

/-- Scanning a text ends after as many lexemes as it has characters at most, and these lexemes tile
it: each of them is a part of the text that is not empty, at the place that its span says, they
follow each other, and between them, in front of the first one and behind the last one there are
only blanks and comments. A token is what stands at its place: its text, or in the case of a heading
a run of `#` and the rest of the line, which is its text with blanks around it. -/
theorem exists_tiledBy_scan (source : String) : ∃ xs finish,
    scan source = xs ++ [.ok (.finish finish)] ∧ TiledBy source xs finish := by
  obtain ⟨xs, htiles, hscan⟩ := exists_tiles_scanFrom .origin source.toList [] rfl
  have hcounts := Position.counts_after source.toList
  rw [String.ofList_toList] at hcounts
  exact ⟨xs, _, hscan, htiles.length_le, hcounts, htiles.isSlice rfl, htiles.precedes.2,
    htiles.separated rfl rfl⟩

end CombinatorNet
