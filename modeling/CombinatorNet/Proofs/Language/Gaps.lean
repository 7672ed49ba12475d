import CombinatorNet.Proofs.Language.Writing

/-!
# The gaps between lexemes

What the scanner skips are the gaps of a text: blank characters and comments. A gap is one in front
of some text only, as a line comment goes on to the end of its line. In front of a character that
does not end a line it is one in front of any text.

## Main definitions

* `Gap` — blanks and comments in front of a text

## Main results

* `closeComment?_eq_some_iff` — a comment is closed by the first end of a comment
* `gap_splitBlank`, `Gap.splitBlank_append` — what is split off is a gap, and gaps are split off
* `scanFrom_gap` — the scanner skips gaps
* `Gap.append` — gaps can follow each other
-/

namespace CombinatorNet

/-- Blanks and comments in front of a text. A line comment goes on to the end of its line, and
another comment to the first end of a comment that is behind its start. -/
inductive Gap : List Char → List Char → Prop
  | nil {after : List Char} : Gap [] after
  | blank {c : Char} {gap after : List Char} :
      isBlank c = true → Gap gap after → Gap (c :: gap) after
  | line {body gap after : List Char} :
      '\n' ∉ body → (∀ c ∈ (gap ++ after).head?, c = '\n') → Gap gap after →
      Gap ('/' :: '/' :: (body ++ gap)) after
  | block {body gap after : List Char} :
      ¬ ['*', '/'] <:+: body → Gap gap after → Gap ('/' :: '*' :: (body ++ '*' :: '/' :: gap)) after

variable {gap gap' after cs body rest : List Char} {c : Char}

/-! ### Comments -/

/-- A comment is closed by the first end of a comment. -/
theorem closeComment?_eq_some_iff : closeComment? cs = some (body, rest) ↔
    ∃ inner, body = inner ++ ['*', '/'] ∧ cs = body ++ rest ∧ ¬ ['*', '/'] <:+: inner := by
  constructor
  · intro h
    fun_induction closeComment? cs generalizing body rest with
    | case1 => cases h
    | case2 tail =>
      cases h
      exact ⟨[], rfl, rfl, fun hmem => by simp at hmem⟩
    | case3 c tail hopen ih =>
      obtain ⟨⟨b, r⟩, hb, heq⟩ := Option.map_eq_some_iff.mp h
      cases heq
      obtain ⟨inner, rfl, rfl, hinner⟩ := ih hb
      refine ⟨c :: inner, rfl, rfl, fun hmem => ?_⟩
      rcases List.infix_cons_iff.mp hmem with ⟨more, hprefix⟩ | hmem
      · -- The end would have been found at once.
        obtain ⟨rfl, rfl⟩ := List.cons.inj hprefix
        exact hopen _ rfl rfl
      · exact hinner hmem
  · rintro ⟨inner, rfl, rfl, hinner⟩
    induction inner with
    | nil => rfl
    | cons c inner ih =>
      have htail := ih fun hmem => hinner (List.infix_cons_iff.mpr (.inr hmem))
      rw [List.append_assoc] at htail
      rw [List.append_assoc, List.cons_append, closeComment?, htail]
      · rfl
      · -- A star here is not followed by a slash, be the next character in the comment or its end.
        rintro more rfl heq
        cases inner with
        | nil => cases heq
        | cons d inner =>
          obtain ⟨rfl, -⟩ := List.cons.inj heq
          exact hinner ⟨[], inner, rfl⟩

/-- A comment and the gap behind it are a gap. -/
private theorem gap_of_comment? (h : comment? cs = some (body, rest)) {after : List Char}
    (hrest : rest = gap ++ after) (hgap : Gap gap after) : Gap (body ++ gap) after := by
  rw [comment?.eq_def] at h
  split at h
  · next tail =>
    cases h
    refine .line (fun hmem => by simpa using List.mem_takeWhile_imp hmem) ?_ hgap
    -- What is left starts where the line ends.
    intro c hc
    rw [← hrest] at hc
    simpa using eq_false_of_mem_head?_dropWhile hc
  · obtain ⟨⟨b, r⟩, hb, heq⟩ := Option.map_eq_some_iff.mp h
    cases heq
    obtain ⟨inner, rfl, -, hinner⟩ := closeComment?_eq_some_iff.mp hb
    have hblock : Gap ('/' :: '*' :: (inner ++ '*' :: '/' :: gap)) after := .block hinner hgap
    simpa using hblock
  · cases h

/-! ### Splitting -/

/-- What is split off at the start of a text is a gap. -/
theorem gap_splitBlank (cs : List Char) : Gap (splitBlank cs).1 (splitBlank cs).2 := by
  fun_induction splitBlank cs with
  | case1 => exact .nil
  | case2 c rest hc split ih => exact .blank hc ih
  | case3 c rest hc body rest' hcomment split ih =>
    exact gap_of_comment? hcomment (splitBlank_append rest').symm ih
  | case4 => exact .nil

theorem comment?_splitBlank (cs : List Char) : comment? (splitBlank cs).2 = none := by
  fun_induction splitBlank cs with
  | case1 => rfl
  | case2 c rest hc split ih => exact ih
  | case3 c rest hc body rest' hcomment split ih => exact ih
  | case4 c rest hc hcomment => exact hcomment

/-- A text is cut into a gap and a rest that starts with no comment. -/
theorem cut_of_splitBlank (h : splitBlank cs = (gap, rest)) :
    cs = gap ++ rest ∧ Gap gap rest ∧ comment? rest = none := by
  have happend := splitBlank_append cs
  have hgap := gap_splitBlank cs
  have hcomment := comment?_splitBlank cs
  rw [h] at happend hgap hcomment
  exact ⟨happend.symm, hgap, hcomment⟩

private theorem splitBlank_of_comment? (hc : isBlank c = false)
    (h : comment? (c :: cs) = some (body, rest)) :
    splitBlank (c :: cs) = (body ++ (splitBlank rest).1, (splitBlank rest).2) := by
  rw [splitBlank, if_neg (by rw [hc]; exact Bool.false_ne_true)]
  split
  · next heq =>
    rw [h] at heq
    cases heq
    rfl
  · next heq =>
    rw [h] at heq
    cases heq

/-- A gap is split off, and then what is behind it. -/
theorem Gap.splitBlank_append (h : Gap gap after) :
    splitBlank (gap ++ after) = (gap ++ (splitBlank after).1, (splitBlank after).2) := by
  induction h with
  | nil => rfl
  | blank hc _ ih => rw [List.cons_append, splitBlank_of_isBlank hc, ih, List.cons_append]
  | @line body gap after hbody hstop _ ih =>
    have hline : ∀ c ∈ body, (c != '\n') = true := fun c hc =>
      bne_iff_ne.mpr fun heq => hbody (heq ▸ hc)
    have hnext : ∀ c ∈ (gap ++ after).head?, (c != '\n') = false := fun c hc => by
      rw [hstop c hc]
      rfl
    have hcut := takeWhile_dropWhile_append hline hnext
    have hcomment : comment? ('/' :: '/' :: (body ++ (gap ++ after))) =
        some ('/' :: '/' :: body, gap ++ after) := by
      rw [comment?, hcut.1, hcut.2]
    have hsplit := splitBlank_of_comment? (by decide) hcomment
    rw [ih] at hsplit
    simpa using hsplit
  | @block body gap after hbody _ ih =>
    have hclose : closeComment? (body ++ ['*', '/'] ++ (gap ++ after)) =
        some (body ++ ['*', '/'], gap ++ after) :=
      closeComment?_eq_some_iff.mpr ⟨body, rfl, rfl, hbody⟩
    have hcomment : comment? ('/' :: '*' :: (body ++ ['*', '/'] ++ (gap ++ after))) =
        some ('/' :: '*' :: (body ++ ['*', '/']), gap ++ after) := by
      rw [comment?, hclose, Option.map_some]
    have hsplit := splitBlank_of_comment? (by decide) hcomment
    rw [ih] at hsplit
    simpa using hsplit

/-- The scanner skips gaps. -/
theorem scanFrom_gap (h : Gap gap after) (p : Position) :
    scanFrom p (gap ++ after) = scanFrom (p.after gap) after := by
  rw [scanFrom.eq_def, scanFrom.eq_def (p.after gap), h.splitBlank_append]
  obtain ⟨gap', rest⟩ := splitBlank after
  cases rest <;> simp only [Position.after_append]

/-! ### One gap behind another -/

theorem gap_of_isBlank (h : ∀ c ∈ gap, isBlank c = true) : Gap gap after := by
  induction gap with
  | nil => exact .nil
  | cons c gap ih =>
    obtain ⟨hc, hgap⟩ := List.forall_mem_cons.mp h
    exact .blank hc (ih hgap)

/-- A gap in front of a character that does not end a line is one in front of any text. -/
theorem Gap.before_any (h : Gap gap (c :: after)) (hc : c ≠ '\n') (after' : List Char) :
    Gap gap after' := by
  generalize hafter : c :: after = text at h
  induction h with
  | nil => exact .nil
  | blank hblank _ ih => exact .blank hblank (ih hafter)
  | @line body gap text hbody hstop _ ih =>
    subst hafter
    refine .line hbody ?_ (ih rfl)
    -- The line of the comment ends in the gap.
    cases gap with
    | nil => exact absurd (hstop c rfl) hc
    | cons d gap => exact hstop
  | block hbody _ ih => exact .block hbody (ih hafter)

/-- Gaps can follow each other. -/
theorem Gap.append (h : Gap gap (gap' ++ after)) (h' : Gap gap' after) :
    Gap (gap ++ gap') after := by
  generalize htext : gap' ++ after = text at h
  induction h with
  | nil => exact h'
  | blank hblank _ ih => exact .blank hblank (ih htext)
  | @line body gap text hbody hstop _ ih =>
    subst htext
    rw [List.cons_append, List.cons_append, List.append_assoc]
    refine .line hbody ?_ (ih rfl)
    rwa [List.append_assoc]
  | @block body gap text hbody _ ih =>
    rw [List.cons_append, List.cons_append, List.append_assoc]
    exact .block hbody (ih htext)

end CombinatorNet
