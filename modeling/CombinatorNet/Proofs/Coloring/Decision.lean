import CombinatorNet.Proofs.Coloring.Assignment
import CombinatorNet.Proofs.Coloring.RollBack
import Mathlib.Data.List.Induction

/-!
# Deciding whether a coloring exists

Whatever calls were made before, a call is accepted exactly if its constraints, together with those
of the calls accepted so far, have a coloring, and the coloring that is shown satisfies them all.

## Main definitions

* `ColorCall` — a call, with `ColorCall.demands` for its constraints
* `replay` — the forest after some calls, and the constraints that it has accepted
* `ColorClasses.Represents` — the colorings of a forest are the solutions of some constraints

## Main results

* `represents_replay` — the forest represents what it has accepted
* `accepts_iff_satisfiable` — calls are decided exactly, and the coloring is a solution
-/

namespace CombinatorNet

namespace Constraint

/-- Colors are known for both wires of the constraint and satisfy it. -/
def HoldsIn (colors : String → Option Color) : Constraint → Prop
  | differ a b => ∃ c d, colors a = some c ∧ colors b = some d ∧ c ≠ d
  | agree a b => ∃ c d, colors a = some c ∧ colors b = some d ∧ c = d

/-- Colors that are those of a coloring satisfy the constraints that it satisfies. -/
theorem Holds.holdsIn {f : String → Color} {colors : String → Option Color} {c : Constraint}
    (h : c.Holds f) (hcolors : ∀ w ∈ c.wires, colors w = some (f w)) : c.HoldsIn colors := by
  cases c with
  | differ a b => exact ⟨f a, f b, hcolors a (by simp [wires]), hcolors b (by simp [wires]), h⟩
  | agree a b => exact ⟨f a, f b, hcolors a (by simp [wires]), hcolors b (by simp [wires]), h⟩

end Constraint

/-- Some coloring of all names satisfies the constraints. -/
def Satisfiable (constraints : List Constraint) : Prop :=
  ∃ f : String → Color, ∀ c ∈ constraints, c.Holds f

/-- A call that may constrain the colors. -/
inductive ColorCall
  /-- Attach wires to one side of a combinator. -/
  | attach (side : List String)
  /-- Attach wires to several sides, or to none of them. -/
  | attachAll (sides : List (List String))
  /-- Give a wire a color. -/
  | paint (wire : String) (color : Color)
  /-- Make two wires differ. -/
  | differ (first second : String)
  /-- Make two wires agree. -/
  | agree (first second : String)

namespace ColorCall

/-- What the call asks of the colors. A color is asked for as that of a channel. -/
def demands : ColorCall → List Constraint
  | attach side => sideDemands side
  | attachAll sides => sides.flatMap sideDemands
  | paint wire color => [.agree wire color.channel]
  | differ a b => [.differ a b]
  | agree a b => [.agree a b]

/-- No side of the call has more wires than a combinator has contacts on it. -/
def Fits : ColorCall → Prop
  | attach side => side.length ≤ 2
  | attachAll sides => ∀ side ∈ sides, side.length ≤ 2
  | _ => True

end ColorCall

/-- The answer to a call, and the forest after it. -/
def ColorClasses.answer (s : ColorClasses) : ColorCall → Except ColorFault Unit × ColorClasses
  | .attach side => s.attach side
  | .attachAll sides => s.attachAll sides
  | .paint wire color => s.paint wire color
  | .differ a b => s.differ a b
  | .agree a b => s.agree a b

/-- A call in a forest that has accepted certain constraints. -/
def replayCall (state : ColorClasses × List Constraint) (call : ColorCall) :
    ColorClasses × List Constraint :=
  match state.1.answer call with
  | (.ok (), s) => (s, state.2 ++ call.demands)
  | (.error _, s) => (s, state.2)

/-- The forest after some calls, and the constraints of those that it accepted. -/
def replay (calls : List ColorCall) : ColorClasses × List Constraint :=
  calls.foldl replayCall (.start, [.differ redChannel greenChannel])

namespace ColorClasses

variable {s : ColorClasses} {constraints : List Constraint}

/-- The forest knows the wires of the constraints, and its colorings are their solutions. -/
structure Represents (s : ColorClasses) (constraints : List Constraint) : Prop where
  valid : Valid s
  first : s.order.toList.head? = some redChannel
  knows : ∀ c ∈ constraints, ∀ w ∈ c.wires, s.Knows w
  respects : ∀ f, s.Respects f ↔ ∀ c ∈ constraints, c.Holds f
  channels : .differ redChannel greenChannel ∈ constraints

theorem Represents.channels_differ (h : s.Represents constraints) {f : String → Color}
    (hf : s.Respects f) : f redChannel ≠ f greenChannel :=
  (h.respects f).mp hf _ h.channels

theorem Represents.knows_channel (h : s.Represents constraints) (color : Color) :
    s.Knows color.channel := by
  have hchannels := h.knows _ h.channels
  cases color
  · exact hchannels _ (by simp [Constraint.wires, Color.channel])
  · exact hchannels _ (by simp [Constraint.wires, Color.channel])

/-- The coloring of the forest is a solution. -/
theorem Represents.exists_solution (h : s.Represents constraints) :
    ∃ f, (∀ c ∈ constraints, c.Holds f) ∧ ∀ w, s.Knows w → s.coloring w = some (f w) := by
  obtain ⟨f, hf, hcoloring⟩ :=
    exists_respects_coloring h.valid h.first fun f hf => h.channels_differ hf
  exact ⟨f, (h.respects f).mp hf, hcoloring⟩

theorem Represents.holdsIn (h : s.Represents constraints) :
    ∀ c ∈ constraints, c.HoldsIn s.coloring := by
  obtain ⟨f, hholds, hcoloring⟩ := h.exists_solution
  exact fun c hc => (hholds c hc).holdsIn fun w hw => hcoloring w (h.knows c hc w hw)

/-! ### One call -/

/-- To have the color of a channel is to differ from the other channel. -/
private theorem holds_channel_iff {f : String → Color} (h : f redChannel ≠ f greenChannel)
    (w : String) (color : Color) : (Constraint.differ w color.other.channel).Holds f ↔
      (Constraint.agree w color.channel).Holds f := by
  have hred := Color.ne_iff_eq_other.mp h
  have hgreen := Color.ne_iff_eq_other.mp h.symm
  cases color
  · show f w ≠ f greenChannel ↔ f w = f redChannel
    rw [hred, Color.ne_iff_eq_other]
  · show f w ≠ f redChannel ↔ f w = f greenChannel
    rw [hgreen, Color.ne_iff_eq_other]

/-- Giving a wire a color is settled as agreeing with a channel. -/
private theorem settles_paint (h : s.Represents constraints) (w : String) (color : Color) :
    Settles s (s.paint w color) True [.agree w color.channel] := by
  -- The forest makes the wire differ from the other channel, which comes to the same.
  have hdiffer := settles_differ h.valid w color.other.channel
  have hiff : ∀ f, s.Respects f → ((∀ c ∈ [Constraint.differ w color.other.channel], c.Holds f) ↔
      ∀ c ∈ [Constraint.agree w color.channel], c.Holds f) := fun f hf => by
    rw [List.forall_mem_singleton, List.forall_mem_singleton]
    exact holds_channel_iff (h.channels_differ hf) w color
  refine ⟨⟨hdiffer.valid, hdiffer.knows, hdiffer.order, fun hok => ⟨trivial, ?_, fun f => ?_⟩,
    fun hno hfits f hf hall => ?_⟩, hdiffer.keeps⟩
  · have hknown := (hdiffer.accepts hok).2.1 _ (List.mem_singleton.mpr rfl)
    rw [List.forall_mem_singleton]
    simp only [Constraint.wires, List.forall_mem_cons] at hknown ⊢
    exact ⟨hknown.1, hdiffer.knows _ (h.knows_channel color), by simp⟩
  · exact ((hdiffer.accepts hok).2.2 f).trans (and_congr_right (hiff f))
  · exact hdiffer.refuses hno hfits f hf ((hiff f hf).mpr hall)

/-- Every call is settled by its demands. -/
theorem Represents.settles (h : s.Represents constraints) (call : ColorCall) :
    Settles s (s.answer call) call.Fits call.demands := by
  cases call with
  | attach side => exact settles_attach h.valid side
  | attachAll sides => exact settles_attachAll h.valid sides
  | paint w color => exact settles_paint h w color
  | differ a b => exact settles_differ h.valid a b
  | agree a b => exact settles_agree h.valid a b

private theorem head?_of_isPrefix {xs ys : List String} {x : String} (h : xs <+: ys)
    (hx : xs.head? = some x) : ys.head? = some x := by
  obtain ⟨rest, rfl⟩ := h
  cases xs with
  | nil => cases hx
  | cons y xs => exact hx

/-- A call that is accepted adds its demands to what the forest represents. -/
theorem Represents.accepted (h : s.Represents constraints) (call : ColorCall)
    (hok : (s.answer call).1 = .ok ()) :
    (s.answer call).2.Represents (constraints ++ call.demands) := by
  have hcall := h.settles call
  obtain ⟨-, hknown, hrespects⟩ := hcall.accepts hok
  -- Wires stay known, and the colorings left are those that satisfy the new demands too.
  refine ⟨hcall.valid, head?_of_isPrefix hcall.order h.first, ?_, fun f => ?_,
    List.mem_append_left _ h.channels⟩
  · exact List.forall_mem_append.mpr ⟨fun c hc w hw => hcall.knows w (h.knows c hc w hw), hknown⟩
  · rw [hrespects, h.respects, List.forall_mem_append]

/-- A call that is refused adds nothing. -/
theorem Represents.refused (h : s.Represents constraints) (call : ColorCall)
    (hno : (s.answer call).1 ≠ .ok ()) : (s.answer call).2.Represents constraints := by
  have hcall := h.settles call
  exact ⟨hcall.valid, head?_of_isPrefix hcall.order h.first,
    fun c hc w hw => hcall.knows w (h.knows c hc w hw),
    fun f => (hcall.keeps hno f).trans (h.respects f), h.channels⟩

/-- A call is accepted exactly if it fits and leaves a solution. -/
theorem Represents.answer_eq_ok_iff (h : s.Represents constraints) (call : ColorCall) :
    (s.answer call).1 = .ok () ↔ call.Fits ∧ Satisfiable (constraints ++ call.demands) := by
  constructor
  · intro hok
    obtain ⟨f, hf, -⟩ := (h.accepted call hok).exists_solution
    exact ⟨((h.settles call).accepts hok).1, f, hf⟩
  · rintro ⟨hfits, f, hf⟩
    -- A call that is refused has no solution, but here is one.
    by_contra hno
    rw [List.forall_mem_append] at hf
    exact (h.settles call).refuses hno hfits f ((h.respects f).mpr hf.1) hf.2

/-! ### Any calls -/

/-- The nodes of the channels are roots of opposite classes; the classes that were opposite to them
at first remain as nodes that no wire leads to. -/
private theorem start_eq : start =
    { nodes := #[⟨0, 1, 2⟩, ⟨1, 0, 0⟩, ⟨2, 1, 0⟩, ⟨3, 0, 2⟩]
      index := ((∅ : NameMap Nat).insert redChannel 0).insert greenChannel 2
      order := #[redChannel, greenChannel]
      log := none } := by
  have hnew : ((∅ : NameMap Nat).insert redChannel 0).get? greenChannel = none := by
    rw [NameMap.get?_insert, if_neg (by decide), NameMap.get?_empty]
  simp [start, empty, register, hnew, oppose, save, modifyNode]

private theorem knows_start {w : String} :
    start.Knows w ↔ w = redChannel ∨ w = greenChannel := by
  rw [Knows, start_eq, NameMap.get?_insert]
  by_cases hgreen : w = greenChannel
  · simp [hgreen]
  · rw [if_neg hgreen, NameMap.get?_insert]
    by_cases hred : w = redChannel <;> simp [hgreen, hred]

private theorem nodeOf_start : start.nodeOf redChannel = 0 ∧ start.nodeOf greenChannel = 2 := by
  rw [nodeOf, nodeOf, start_eq]
  simp only [NameMap.get?_insert]
  decide

private theorem size_start : start.nodes.size = 4 := by
  rw [start_eq]
  rfl

private theorem parent_start : ∀ x < 4, (start.node x).parent = x := by
  rw [start_eq]
  decide

private theorem root_start {x : Nat} (hx : x < 4) : start.root x = x :=
  root_of_isRoot (parent_start x hx)

/-- The channels are in opposite classes. -/
private theorem paired_start : start.Paired 0 2 := by
  have hopp : (start.node 0).opposite = 2 ∧ (start.node 2).opposite = 0 := by
    rw [start_eq]
    exact ⟨rfl, rfl⟩
  refine ⟨?_, ?_, root_start (by omega), root_start (by omega), ?_, ?_, by omega⟩
  · rw [size_start]
    omega
  · rw [size_start]
    omega
  · rw [opposed, hopp.1, root_start (by omega)]
  · rw [opposed, hopp.2, root_start (by omega)]

private theorem classOf_start : start.classOf redChannel = 0 ∧ start.rival redChannel = 2 ∧
    start.classOf greenChannel = 2 ∧ start.rival greenChannel = 0 := by
  have hred : start.classOf redChannel = 0 := by
    rw [classOf, nodeOf_start.1, root_start (by omega)]
  have hgreen : start.classOf greenChannel = 2 := by
    rw [classOf, nodeOf_start.2, root_start (by omega)]
  exact ⟨hred, by rw [rival, hred, paired_start.opposed],
    hgreen, by rw [rival, hgreen, paired_start.opposed']⟩

private theorem valid_start : Valid start := by
  obtain ⟨hred, hred', hgreen, hgreen'⟩ := classOf_start
  have hforest : Forest start := by
    refine ⟨fun x hx => ?_, fun _ => 0, fun x hx hne => ?_⟩
    · rwa [parent_start x (size_start ▸ hx)]
    · exact absurd (parent_start x (size_start ▸ hx)) hne
  refine ⟨hforest, ?_, fun w hw => ?_, fun w hw => ?_, fun w => ?_, ?_⟩
  · rw [start_eq]
    decide
  · rw [size_start]
    obtain rfl | rfl := knows_start.mp hw
    · rw [nodeOf_start.1]
      omega
    · rw [nodeOf_start.2]
      omega
  · obtain rfl | rfl := knows_start.mp hw
    · rw [hred, hred']
      exact paired_start
    · rw [hgreen, hgreen']
      exact paired_start.symm
  · rw [knows_start, start_eq]
    simp
  · rw [start_eq]
    simp only [List.nodup_cons]
    decide

private theorem respects_start {f : String → Color} :
    start.Respects f ↔ f redChannel ≠ f greenChannel := by
  obtain ⟨hred, hred', hgreen, hgreen'⟩ := classOf_start
  rw [Color.ne_iff_eq_other]
  constructor
  · rintro ⟨g, hg⟩
    obtain ⟨hfred, -⟩ := hg _ (knows_start.mpr (.inl rfl))
    obtain ⟨-, hggreen⟩ := hg _ (knows_start.mpr (.inr rfl))
    rw [hgreen', ← hred, ← hfred] at hggreen
    exact hggreen
  · intro hdiffer
    refine ⟨fun x => if x = 0 then f redChannel else f greenChannel, fun w hw => ?_⟩
    obtain rfl | rfl := knows_start.mp hw
    · rw [hred, hred']
      simp [hdiffer]
    · rw [hgreen, hgreen']
      simp [hdiffer]

/-- To begin with, the only constraint is that the channels differ. -/
theorem represents_start : start.Represents [.differ redChannel greenChannel] := by
  refine ⟨valid_start, by rw [start_eq]; rfl, ?_, fun f => ?_, List.mem_singleton.mpr rfl⟩
  · simp [Constraint.wires, knows_start]
  · rw [List.forall_mem_singleton]
    exact respects_start

end ColorClasses

open ColorClasses

/-- Whatever calls were made, the forest represents the constraints it has accepted. -/
theorem represents_replay (calls : List ColorCall) :
    (replay calls).1.Represents (replay calls).2 := by
  -- By induction on the calls, the last one being answered in the forest that the others leave.
  induction calls using List.reverseRecOn with
  | nil => exact represents_start
  | append_singleton calls call ih =>
    have hstep : replay (calls ++ [call]) = replayCall (replay calls) call := by
      rw [replay, List.foldl_append, List.foldl_cons, List.foldl_nil, replay]
    rw [hstep, replayCall]
    have haccepted := ih.accepted call
    have hrefused := ih.refused call
    generalize (replay calls).1.answer call = answer at haccepted hrefused
    obtain ⟨_ | _, s⟩ := answer
    · exact hrefused (by simp)
    · exact haccepted rfl

/-- Call by call, the forest decides exactly whether a coloring exists: after any calls, a further
one is accepted if and only if no side has too many wires and some coloring satisfies its
constraints with all those accepted so far, and the coloring of the wires, in which the channels
have the colors they stand for, satisfies those accepted so far. -/
theorem accepts_iff_satisfiable (calls : List ColorCall) :
    (∀ call, ((replay calls).1.answer call).1 = .ok () ↔
      call.Fits ∧ Satisfiable ((replay calls).2 ++ call.demands)) ∧
    ∀ c ∈ (replay calls).2, c.HoldsIn (replay calls).1.coloring :=
  ⟨(represents_replay calls).answer_eq_ok_iff, (represents_replay calls).holdsIn⟩

end CombinatorNet
