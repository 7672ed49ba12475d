import CombinatorNet.Proofs.Coloring.Alike
import CombinatorNet.Proofs.Network.Calls

/-!
# Refused requests leave no trace

A request that is refused may have met wires and shortened ways in the forest of the coloring, so
the network afterwards need not be the one before. But the forests are alike, and networks that
differ in no more than that answer every request in the same way.

## Main definitions

* `Network.Alike` — two networks differ at most in forests that are alike

## Main results

* `Network.Alike.serve` — networks that are alike answer alike, and are alike afterwards
* `Network.Reachable.alike_of_refused` — a refused request leaves a network like the one before
* `Network.transcript_of_refused` — whatever requests come later, a refused one makes no difference
-/

namespace CombinatorNet.Network

variable {n m : Network} {call : NetworkCall} {e : NetworkError}

/-- Two networks that differ at most in their forests, which are alike. -/
def Alike (n m : Network) : Prop := ∃ coloring, n.coloring.Alike coloring ∧ m = { n with coloring }

/-- Networks that are alike look the same. -/
theorem Alike.view (h : n.Alike m) : m.view = n.view := by
  obtain ⟨coloring, h, rfl⟩ := h
  rw [Network.view, Network.view, Network.colors, Network.colors, h.colors]

/-! ### The same answers -/

/-- A request is answered alike, and leaves networks that are alike. -/
def SameReply {α : Type} (p q : Reply α) : Prop := q.1 = p.1 ∧ p.2.Alike q.2

theorem Alike.add (h : n.Alike m) (c : Combinator) (inputs outputs : List String) (span : Span) :
    SameReply (n.add c inputs outputs span) (m.add c inputs outputs span) := by
  obtain ⟨coloring, h, rfl⟩ := h
  obtain ⟨hanswer, hafter⟩ := h.attachAll [inputs, outputs]
  rw [Network.add, Network.add]
  generalize n.coloring.attachAll [inputs, outputs] = p at hanswer hafter
  generalize coloring.attachAll [inputs, outputs] = q at hanswer hafter
  obtain ⟨x, s⟩ := p
  obtain ⟨y, t⟩ := q
  obtain rfl : y = x := hanswer
  cases y with
  | error fault => exact ⟨rfl, t, hafter, rfl⟩
  | ok _ => exact ⟨rfl, t, hafter, rfl⟩

theorem Alike.paint (h : n.Alike m) (wire : String) (color : Color) (span : Span) :
    SameReply (n.paint wire color span) (m.paint wire color span) := by
  obtain ⟨coloring, h, rfl⟩ := h
  obtain ⟨hanswer, hafter⟩ := h.answer (.paint wire color)
  simp only [ColorClasses.answer] at hanswer hafter
  rw [Network.paint, Network.paint]
  generalize n.coloring.paint wire color = p at hanswer hafter
  generalize coloring.paint wire color = q at hanswer hafter
  obtain ⟨x, s⟩ := p
  obtain ⟨y, t⟩ := q
  obtain rfl : y = x := hanswer
  cases y with
  | error fault => exact ⟨rfl, t, hafter, rfl⟩
  | ok _ => exact ⟨rfl, t, hafter, rfl⟩

/-- Buttons have nothing to do with the forest. -/
private theorem setActive_coloring (n : Network) (coloring : ColorClasses) (index : Nat)
    (active : Bool) : ({ n with coloring } : Network).setActive index active =
      (n.setActive index active).map ({ · with coloring }) := by
  rw [setActive, setActive]
  cases n.nodes[index]? with
  | none => rfl
  | some node =>
    simp only
    split <;> rfl

private theorem toggleActive_coloring (n : Network) (coloring : ColorClasses) (index : Nat) :
    ({ n with coloring } : Network).toggleActive index =
      (n.toggleActive index).map fun r => (r.1, { r.2 with coloring }) := by
  rw [toggleActive, toggleActive]
  cases n.nodes[index]? with
  | none => rfl
  | some node =>
    simp only
    cases node.combinator.active? with
    | none => rfl
    | some active =>
      simp only [setActive_coloring n coloring]
      cases n.setActive index !active <;> rfl

/-- The layout depends on the colors only. -/
private theorem finalize_coloring {coloring : ColorClasses} (h : n.coloring.Alike coloring) :
    ({ n with coloring } : Network).finalize =
      n.finalize.map fun r => (r.1, { r.2 with coloring }) := by
  have hcolors : ({ n with coloring } : Network).colors = n.colors := h.colors
  rw [finalize, finalize, hcolors]
  cases hlayout : n.layout with
  | some layout => simp only [Except.map, ← hlayout]
  | none =>
    simp only [site]
    cases (Site.ofConnections n.settings (n.nodes.map Node.connections) n.colors).layout <;> rfl

/-- Networks that are alike answer alike, and are alike afterwards. -/
theorem Alike.serve (h : n.Alike m) (call : NetworkCall) :
    SameReply (n.serve call) (m.serve call) := by
  cases call with
  | add c inputs outputs span =>
    obtain ⟨hanswer, hafter⟩ := h.add c inputs outputs span
    exact ⟨congrArg (Except.map _) hanswer, hafter⟩
  | paint wire color span =>
    obtain ⟨hanswer, hafter⟩ := h.paint wire color span
    exact ⟨congrArg (Except.map _) hanswer, hafter⟩
  | step =>
    obtain ⟨coloring, h, rfl⟩ := h
    exact ⟨rfl, coloring, h, rfl⟩
  | setActive index active =>
    obtain ⟨coloring, h, rfl⟩ := h
    rw [Network.serve, Network.serve, setActive_coloring n coloring]
    cases hset : n.setActive index active with
    | error e => exact ⟨rfl, coloring, h, rfl⟩
    | ok n' => exact ⟨rfl, coloring, (sameWires_of_setActive hset).1 ▸ h, rfl⟩
  | toggleActive index =>
    obtain ⟨coloring, h, rfl⟩ := h
    rw [Network.serve, Network.serve, toggleActive_coloring n coloring]
    cases htoggle : n.toggleActive index with
    | error e => exact ⟨rfl, coloring, h, rfl⟩
    | ok r => exact ⟨rfl, coloring, (sameWires_of_toggleActive htoggle).1 ▸ h, rfl⟩
  | finalize =>
    obtain ⟨coloring, h, rfl⟩ := h
    rw [Network.serve, Network.serve, finalize_coloring h]
    cases hlaid : n.finalize with
    | error e => exact ⟨rfl, coloring, h, rfl⟩
    | ok r => exact ⟨rfl, coloring, (sameWires_of_finalize hlaid).1 ▸ h, rfl⟩

/-- Networks that are alike have the same transcripts. -/
theorem Alike.transcript (h : n.Alike m) (calls : List NetworkCall) :
    m.transcript calls = n.transcript calls := by
  -- By induction on the requests: each is answered alike, and the networks stay alike.
  induction calls generalizing n m with
  | nil => rfl
  | cons call calls ih =>
    obtain ⟨hanswer, hafter⟩ := h.serve call
    rw [Network.transcript, Network.transcript, hanswer, hafter.view, ih hafter]

/-! ### Refused requests -/

theorem alike_of_add_refused (h : n.coloring.Valid) {c : Combinator}
    {inputs outputs : List String} {span : Span}
    (hno : (n.add c inputs outputs span).1 = .error e) :
    n.Alike (n.add c inputs outputs span).2 := by
  rcases n.add_cases c inputs outputs span with ⟨fault, hfault, heq⟩ | ⟨-, heq⟩ <;>
    rw [heq] at hno ⊢
  · exact ⟨_, ColorClasses.alike_of_attachAll_refused h (by simp [hfault]), rfl⟩
  · cases hno

theorem alike_of_paint_refused (h : n.coloring.Valid) {wire : String} {color : Color} {span : Span}
    (hchannel : n.coloring.Knows color.other.channel)
    (hno : (n.paint wire color span).1 = .error e) : n.Alike (n.paint wire color span).2 := by
  rcases n.paint_cases wire color span with ⟨fault, hfault, heq⟩ | ⟨-, heq⟩ <;>
    rw [heq] at hno ⊢
  · exact ⟨_, ColorClasses.alike_of_paint_refused h hchannel (by simp [hfault]), rfl⟩
  · cases hno

private theorem alike_orKeep {α : Type} (h : n.coloring.Valid)
    {result : Except NetworkError (α × Network)} (hno : (n.orKeep result).1 = .error e) :
    n.Alike (n.orKeep result).2 := by
  cases result with
  | error e' => exact ⟨n.coloring, .refl h, rfl⟩
  | ok r => cases hno

private theorem map_eq_error {α β : Type} {f : α → β} {x : Except NetworkError α}
    (h : x.map f = .error e) : x = .error e := by
  cases x with
  | error e' =>
    cases h
    rfl
  | ok a => cases h

/-- A request that is refused leaves a network like the one before. -/
theorem Reachable.alike_of_refused (h : Reachable n) (hno : (n.serve call).1 = .error e) :
    n.Alike (n.serve call).2 := by
  obtain ⟨constraints, hrep⟩ := h.represents
  cases call with
  | add c inputs outputs span => exact alike_of_add_refused hrep.valid (map_eq_error hno)
  | paint wire color span =>
    refine alike_of_paint_refused hrep.valid ?_ (map_eq_error hno)
    -- Both channels are wires of a constraint that holds from the start.
    have hchannels := hrep.knows _ hrep.channels
    simp only [Constraint.wires, List.forall_mem_cons] at hchannels
    cases color
    · exact hchannels.2.1
    · exact hchannels.1
  | step => cases hno
  | setActive index active => exact alike_orKeep hrep.valid hno
  | toggleActive index => exact alike_orKeep hrep.valid hno
  | finalize => exact alike_orKeep hrep.valid hno

/-- A request that is refused makes no difference: the network looks as before, and whatever
requests come later, their answers and what can be seen after each of them are the same as if it had
not been made. -/
theorem transcript_of_refused (h : Reachable n) (hno : (n.serve call).1 = .error e) :
    (n.serve call).2.view = n.view ∧
      ∀ later, (n.serve call).2.transcript later = n.transcript later :=
  ⟨(h.alike_of_refused hno).view, (h.alike_of_refused hno).transcript⟩

/-- One constant on two wires, of which the first is red. -/
def redPair : List Statement :=
  [⟨.constant .constant [("x", 1)] ["A", "B"], .nowhere⟩, ⟨.paint .red ["A"], .nowhere⟩]

/-- A display whose inputs can be colored, by which its outputs have the same color. -/
def lateConflict : NetworkCall := .add (.ofSignal "x") ["A", "C"] ["B", "C"] .nowhere

theorem transcript_of_refused_lateConflict : ∃ n, ofStatements redPair {} = .ok n ∧
    (n.serve lateConflict).1 = .error (.coloring (.conflict "B" "C") (some .nowhere)) ∧
    (n.serve lateConflict).2.view = n.view ∧
    ∀ later, (n.serve lateConflict).2.transcript later = n.transcript later := by
  have hanswer : ((ofStatements redPair {}).map fun n => (n.serve lateConflict).1) =
      .ok (.error (.coloring (.conflict "B" "C") (some .nowhere))) := by rfl
  cases hn : ofStatements redPair {} with
  | error e => rw [hn] at hanswer; cases hanswer
  | ok n =>
    rw [hn] at hanswer
    have hno := Except.ok.inj hanswer
    exact ⟨n, rfl, hno, transcript_of_refused (.ofStatements hn) hno⟩

end CombinatorNet.Network
