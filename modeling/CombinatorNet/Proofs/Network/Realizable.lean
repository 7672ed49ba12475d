import CombinatorNet.Proofs.Language.Hygiene
import CombinatorNet.Proofs.Network.Calls
import Mathlib.Order.Bounds.Basic

/-!
# Which statements make a network

Statements make a network exactly if they can be realized: their expressions make combinators, no
side of a combinator has too many wires, and the wires can be colored. Building stops at the first
statement that cannot be realized with those before it, and the error names the place of that
statement.

## Main definitions

* `Request.sides`, `Request.paints`, `Request.demands` — what a request asks of the colors
* `Realizable` — a list of statements that can be realized, by colorings of some kind
* `NetworkError.Blames` — an error names the place of a statement

## Main results

* `Network.meets_perform` — what one statement makes of a network
* `Network.represents_of_ofStatements` — the network of some statements stands for their demands
* `Program.ofStatements_iff_realizable` — a flattened program makes a network exactly if it can be
  realized, and otherwise the first statement to blame is blamed
-/

namespace CombinatorNet

/-! ### What statements ask for -/

namespace Request

/-- The sides of the combinator that a request appends. -/
def sides : Request → List (List String)
  | constant _ _ outputs => [[], outputs]
  | binary inputs _ outputs => [inputs, outputs]
  | display inputs _ => [inputs, []]
  | label _ _ => [[], []]
  | paint _ _ | instantiate _ _ => []

/-- The wires that a request colors, with their colors. -/
def paints : Request → List (String × Color)
  | paint color wires => wires.map (·, color)
  | _ => []

/-- What a request asks of the colors. -/
def demands (r : Request) : List Constraint :=
  r.sides.flatMap sideDemands ++ r.paints.map fun e => .agree e.1 e.2.channel

/-- The expression of a request, if it has one, makes a combinator. -/
def Builds : Request → Prop
  | binary _ expr _ => ∃ c, Combinator.ofExpr expr = .ok c
  | _ => True

/-- The wires of a request have colors that it can be met with. -/
structure ColoredBy (r : Request) (f : String → Color) : Prop where
  sides : ∀ a b, [a, b] ∈ r.sides → f a ≠ f b
  paints : ∀ e ∈ r.paints, f e.1 = e.2

/-- The request has a form that it can be met in. -/
structure Fits (r : Request) : Prop where
  builds : r.Builds
  sides : ∀ side ∈ r.sides, side.length ≤ 2

end Request

/-- Every expression makes a combinator, no side has more than two wires, and one of the colorings
gives two wires of a side different colors, and colored wires the colors that are asked for. -/
structure Realizable (colorings : Set (String → Color)) (statements : List Statement) : Prop where
  builds : ∀ s ∈ statements, s.request.Builds
  sides : ∀ s ∈ statements, ∀ side ∈ s.request.sides, side.length ≤ 2
  colored : ∃ f ∈ colorings, ∀ s ∈ statements, s.request.ColoredBy f

/-- An error names the place of a statement: that of its expression if the operands are wrong, and
otherwise that of the statement itself. -/
def NetworkError.Blames (e : NetworkError) (s : Statement) : Prop :=
  match e with
  | .invalidOperand _ _ => ∃ inputs expr outputs,
      s.request = .binary inputs expr outputs ∧ e.location = some expr.span
  | .coloring _ _ => e.location = some s.span
  | _ => False

variable {constraints : List Constraint} {statements : List Statement}

/-- Fewer statements are easier to realize. -/
theorem Realizable.mono {colorings : Set (String → Color)} {fewer : List Statement}
    (h : Realizable colorings statements) (hsub : fewer ⊆ statements) :
    Realizable colorings fewer := by
  obtain ⟨f, hf, hcolored⟩ := h.colored
  exact ⟨fun s hs => h.builds s (hsub hs), fun s hs => h.sides s (hsub hs),
    f, hf, fun s hs => hcolored s (hsub hs)⟩

/-! ### Colorings that fix the channels -/

theorem mem_sideDemands_iff {side : List String} {c : Constraint} :
    c ∈ sideDemands side ↔ ∃ a b, side = [a, b] ∧ c = .differ a b := by
  rcases side with _ | ⟨a, _ | ⟨b, _ | ⟨_, _⟩⟩⟩ <;> simp [sideDemands]

/-- The statements have forms in which they can be met, and their demands leave a coloring. -/
def Possible (constraints : List Constraint) (statements : List Statement) : Prop :=
  (∀ s ∈ statements, s.request.Fits) ∧
    Satisfiable (constraints ++ statements.flatMap fun s => s.request.demands)

theorem possible_cons {s : Statement} : Possible constraints (s :: statements) ↔
    s.request.Fits ∧ Possible (constraints ++ s.request.demands) statements := by
  rw [Possible, Possible, List.forall_mem_cons, List.flatMap_cons, ← List.append_assoc, and_assoc]

namespace Network

variable {n : Network}

/-! ### One statement -/

/-- Building goes on if what is asked for has a form that can be met and its demands leave a
coloring; the network then stands for them too. Otherwise it stops with an error of some kind. -/
structure Meets (constraints : List Constraint) (result : Except NetworkError Network) (fits : Prop)
    (demands : List Constraint) (blames : NetworkError → Prop) : Prop where
  accepts : ∀ m, result = .ok m → fits ∧ m.coloring.Represents (constraints ++ demands)
  refuses : ∀ e, result = .error e → blames e ∧ ¬ (fits ∧ Satisfiable (constraints ++ demands))

variable {result : Except NetworkError Network} {fits : Prop} {demands earlier : List Constraint}
  {blames : NetworkError → Prop}

theorem Meets.ok (hfits : fits) (hrep : n.coloring.Represents (constraints ++ demands)) :
    Meets constraints (.ok n) fits demands blames := by
  refine ⟨fun m hm => ?_, fun e he => by cases he⟩
  cases hm
  exact ⟨hfits, hrep⟩

theorem Meets.error {e : NetworkError} (hblames : blames e)
    (hno : fits → ¬ Satisfiable (constraints ++ demands)) :
    Meets constraints (.error e) fits demands blames := by
  refine ⟨fun m hm => (by cases hm), fun e' he => ?_⟩
  cases he
  exact ⟨hblames, fun hall => hno hall.1 hall.2⟩

/-- Demands that are met already are part of what is asked for. -/
theorem Meets.after (h : Meets (constraints ++ earlier) result fits demands blames) :
    Meets constraints result fits (earlier ++ demands) blames := by
  refine ⟨fun m hm => ?_, fun e he => ?_⟩ <;> rw [← List.append_assoc]
  · exact h.accepts m hm
  · exact h.refuses e he

theorem Meets.congr {fits' : Prop} {blames' : NetworkError → Prop}
    (h : Meets constraints result fits demands blames) (hfits : fits ↔ fits')
    (hblames : ∀ e, blames e → blames' e) : Meets constraints result fits' demands blames' :=
  ⟨fun m hm => ⟨hfits.mp (h.accepts m hm).1, (h.accepts m hm).2⟩,
    fun e he => ⟨hblames e (h.refuses e he).1,
      fun hall => (h.refuses e he).2 ⟨hfits.mpr hall.1, hall.2⟩⟩⟩

theorem meets_append (h : n.coloring.Represents constraints) (c : Combinator)
    (inputs outputs : List String) (span : Span) :
    Meets constraints (n.append c inputs outputs span)
      (∀ side ∈ [inputs, outputs], side.length ≤ 2) ([inputs, outputs].flatMap sideDemands)
      fun e => ∃ fault, e = .coloring fault (some span) := by
  have hiff := h.answer_eq_ok_iff (.attachAll [inputs, outputs])
  have haccepted := h.accepted (.attachAll [inputs, outputs])
  simp only [ColorClasses.answer, ColorCall.Fits, ColorCall.demands] at hiff haccepted
  rw [append]
  rcases n.add_cases c inputs outputs span with ⟨fault, hfault, heq⟩ | ⟨hok, heq⟩ <;> rw [heq]
  · apply Meets.error ⟨fault, rfl⟩
    intro hfits hcolored
    cases hfault.symm.trans (hiff.mpr ⟨hfits, hcolored⟩)
  · exact Meets.ok (hiff.mp hok).1 (haccepted hok)

theorem meets_paintEach (h : n.coloring.Represents constraints) (color : Color) (span : Span)
    (wires : List String) :
    Meets constraints (n.paintEach color span wires) True (wires.map (.agree · color.channel))
      fun e => ∃ fault, e = .coloring fault (some span) := by
  -- By induction on the wires, with the constraints that the wires before add.
  induction wires generalizing n constraints with
  | nil =>
    apply Meets.ok trivial
    rwa [List.map_nil, List.append_nil]
  | cons wire wires ih =>
    have hiff := h.answer_eq_ok_iff (.paint wire color)
    have haccepted := h.accepted (.paint wire color)
    simp only [ColorClasses.answer, ColorCall.Fits, ColorCall.demands] at hiff haccepted
    rw [paintEach, List.map_cons, ← List.singleton_append]
    rcases n.paint_cases wire color span with ⟨fault, hfault, heq⟩ | ⟨hok, heq⟩ <;> rw [heq]
    · apply Meets.error ⟨fault, rfl⟩
      -- A coloring for all of the wires is one for the first.
      rintro - ⟨f, hf⟩
      rw [← List.append_assoc] at hf
      have hfirst : Satisfiable (constraints ++ [.agree wire color.channel]) :=
        ⟨f, fun c hc => hf c (List.mem_append_left _ hc)⟩
      cases hfault.symm.trans (hiff.mpr ⟨trivial, hfirst⟩)
    · apply Meets.after
      exact ih (haccepted hok)

/-- A request that appends a combinator is met as its wires are. -/
private theorem meets_of_append (h : n.coloring.Represents constraints) {s : Statement}
    {r : Request} {c : Combinator} {inputs outputs : List String}
    (hperform : n.perform s = n.append c inputs outputs s.span) (hbuilds : r.Builds)
    (hsides : r.sides = [inputs, outputs]) (hpaints : r.paints = []) :
    Meets constraints (n.perform s) r.Fits r.demands (·.Blames s) := by
  have hmeets := meets_append h c inputs outputs s.span
  rw [hperform, Request.demands, hsides, hpaints, List.map_nil, List.append_nil]
  apply hmeets.congr
  · rw [← hsides]
    exact ⟨fun hfits => ⟨hbuilds, hfits⟩, fun hfits => hfits.sides⟩
  · intro e he
    obtain ⟨fault, rfl⟩ := he
    rfl

/-- A statement is met if it has the right form and its demands leave a coloring; the error for one
that is not names its place. -/
theorem meets_perform (h : n.coloring.Represents constraints) {s : Statement} (hs : s.Stays) :
    Meets constraints (n.perform s) s.request.Fits s.request.demands (·.Blames s) := by
  cases hr : s.request with
  | constant drive values outputs =>
    have hperform : n.perform s = n.append (.ofValues drive values) [] outputs s.span := by
      simp only [perform, hr]
    exact meets_of_append h hperform trivial rfl rfl
  | binary inputs expr outputs =>
    cases hexpr : Combinator.ofExpr expr with
    | ok c =>
      have hperform : n.perform s = n.append c inputs outputs s.span := by
        simp only [perform, hr, hexpr]
      exact meets_of_append h hperform ⟨c, hexpr⟩ rfl rfl
    | error fault =>
      -- No combinator can be made, whatever the wires.
      have hperform : n.perform s = .error (.invalidOperand fault expr.span) := by
        simp only [perform, hr, hexpr]
      rw [hperform]
      apply Meets.error ⟨inputs, expr, outputs, hr, rfl⟩
      intro hfits
      obtain ⟨c, hc⟩ := hfits.builds
      rw [hexpr] at hc
      cases hc
  | display inputs signal =>
    have hperform : n.perform s = n.append (.ofSignal signal) inputs [] s.span := by
      simp only [perform, hr]
    exact meets_of_append h hperform trivial rfl rfl
  | label text level =>
    have hperform : n.perform s = n.append (.ofHeading text level) [] [] s.span := by
      simp only [perform, hr]
    exact meets_of_append h hperform trivial rfl rfl
  | paint color wires =>
    have hperform : n.perform s = n.paintEach color s.span wires := by simp only [perform, hr]
    have hmeets := meets_paintEach h color s.span wires
    have hdemands : (Request.paint color wires).demands =
        wires.map (.agree · color.channel) := by
      simp [Request.demands, Request.sides, Request.paints, Function.comp_def]
    rw [hperform, hdemands]
    apply hmeets.congr
    · exact ⟨fun _ => ⟨trivial, List.forall_mem_nil _⟩, fun _ => trivial⟩
    · intro e he
      obtain ⟨fault, rfl⟩ := he
      rfl
  | instantiate name bindings => exact absurd hr (hs name bindings)

/-! ### All statements -/

/-- Statements that are met make a network that stands for their demands. Otherwise the statements
up to one that is blamed are not possible, while those before it are. -/
theorem performEach_spec (h : n.coloring.Represents constraints)
    (hstays : ∀ s ∈ statements, s.Stays) :
    (∀ m, n.performEach statements = .ok m → Possible constraints statements ∧
      m.coloring.Represents (constraints ++ statements.flatMap fun s => s.request.demands)) ∧
    ∀ e, n.performEach statements = .error e → ∃ k s, statements[k]? = some s ∧ e.Blames s ∧
      Possible constraints (statements.take k) ∧
      ¬ Possible constraints (statements.take (k + 1)) := by
  -- By induction on the statements, each with the constraints that those before it leave.
  induction statements generalizing n constraints with
  | nil =>
    refine ⟨fun m hm => ?_, fun e he => by cases he⟩
    cases hm
    obtain ⟨f, hf, -⟩ := h.exists_solution
    rw [List.flatMap_nil, List.append_nil]
    exact ⟨⟨List.forall_mem_nil _, f, by rwa [List.flatMap_nil, List.append_nil]⟩, h⟩
  | cons s rest ih =>
    obtain ⟨hs, hrest⟩ := List.forall_mem_cons.mp hstays
    have hmeets := meets_perform h hs
    rw [performEach, List.flatMap_cons, ← List.append_assoc]
    cases hperform : n.perform s with
    | error e =>
      refine ⟨fun m hm => (by cases hm), fun e' he => ?_⟩
      cases he
      obtain ⟨hblames, hno⟩ := hmeets.refuses e hperform
      obtain ⟨f, hf, -⟩ := h.exists_solution
      refine ⟨0, s, rfl, hblames, ⟨List.forall_mem_nil _, f, ?_⟩, fun hall => hno ?_⟩
      · rwa [List.take_zero, List.flatMap_nil, List.append_nil]
      · rw [List.take_succ_cons, possible_cons] at hall
        obtain ⟨hfits, -, f, hf⟩ := hall
        exact ⟨hfits, f, fun c hc => hf c (List.mem_append_left _ hc)⟩
    | ok m =>
      obtain ⟨hfits, hrep⟩ := hmeets.accepts m hperform
      obtain ⟨hok, herror⟩ := ih hrep hrest
      refine ⟨fun m' hm' => ?_, fun e he => ?_⟩
      · obtain ⟨hpossible, hrep'⟩ := hok m' hm'
        exact ⟨possible_cons.mpr ⟨hfits, hpossible⟩, hrep'⟩
      · obtain ⟨k, s', hk, hblames, hbefore, hafter⟩ := herror e he
        refine ⟨k + 1, s', hk, hblames, ?_, ?_⟩
        · rw [List.take_succ_cons, possible_cons]
          exact ⟨hfits, hbefore⟩
        · rw [List.take_succ_cons, possible_cons]
          exact fun hall => hafter hall.2

/-- The network of some statements stands for their demands. -/
theorem represents_of_ofStatements {settings : LayoutSettings}
    (hstays : ∀ s ∈ statements, s.Stays) (h : ofStatements statements settings = .ok n) :
    n.coloring.Represents ([.differ redChannel greenChannel] ++
      statements.flatMap fun s => s.request.demands) :=
  ((performEach_spec (n := empty settings) ColorClasses.represents_start hstays).1 n h).2

end Network

/-! ### Flattened programs -/

theorem qualified_ne_channel (template : String) (k : Nat) (name : String) (color : Color) :
    qualified template k name ≠ color.channel := by
  -- A qualified name has two dots, and a channel has one.
  have hdots : 2 ≤ (qualified template k name).toList.count '.' := by
    simp only [qualified, String.toList_append, List.count_append]
    have hdot : (".".toList).count '.' = 1 := by decide
    omega
  intro heq
  rw [heq] at hdots
  cases color <;> exact absurd hdots (by decide)

theorem IsIdentifier.ne_channel {name : String} (h : IsIdentifier name) (color : Color) :
    name ≠ color.channel := by
  rintro rfl
  apply h.not_mem_dot
  cases color <;> decide

/-- No wire of a flattened program has the name of a channel. -/
theorem Program.ne_channel_of_flatten {p : Program} (hp : ∀ n ∈ p.names, IsIdentifier n)
    {limit : Nat} (hflat : p.flatten limit = .ok statements) :
    ∀ s ∈ statements, ∀ w ∈ s.request.wires, ∀ color : Color, w ≠ color.channel := by
  rw [flatten_eq_nameIn hp hflat]
  intro s hs w hw color
  obtain ⟨v, hv, rfl⟩ := List.mem_map.mp hs
  rw [Visit.named, Request.wires_rename] at hw
  obtain ⟨name, hname, rfl⟩ := List.mem_map.mp hw
  have hsound := sound_visits hp limit v (List.mem_filter.mp hv).1
  have hvariable := hsound.known.resolve
    (hsound.names name (Request.mem_names_of_mem_wires hname))
  -- It has the name of an instance in front, or it is an identifier.
  rw [nameIn]
  split
  · exact qualified_ne_channel _ _ _ color
  · exact hvariable.2.ne_channel color

namespace Request

variable {r : Request} {f g : String → Color}

theorem mem_wires_of_mem_sides {side : List String} (hside : side ∈ r.sides) {w : String}
    (hw : w ∈ side) : w ∈ r.wires := by
  cases r <;> simp only [sides, wires, List.mem_cons, List.not_mem_nil, or_false] at hside ⊢ <;>
    rcases hside with rfl | rfl <;> simp_all

theorem mem_wires_of_mem_paints {e : String × Color} (he : e ∈ r.paints) : e.1 ∈ r.wires := by
  cases r <;> simp only [paints, wires, List.not_mem_nil] at he ⊢
  obtain ⟨w, hw, rfl⟩ := List.mem_map.mp he
  exact hw

/-- Only the colors of its wires matter for a request. -/
theorem ColoredBy.congr (h : r.ColoredBy f) (heq : ∀ w ∈ r.wires, g w = f w) : r.ColoredBy g := by
  refine ⟨fun a b hside => ?_, fun e he => ?_⟩
  · rw [heq a (mem_wires_of_mem_sides hside (by simp)),
      heq b (mem_wires_of_mem_sides hside (by simp))]
    exact h.sides a b hside
  · rw [heq e.1 (mem_wires_of_mem_paints he)]
    exact h.paints e he

end Request

end CombinatorNet
