import CombinatorNet.Proofs.Combinator.Pointwise
import CombinatorNet.Proofs.Network.Wiring

/-!
# The law of a tick

In a tick every combinator reads the wires as the tick before left them, and a wire then carries the
sum of what the combinators that drive it wrote, in the order in which they were added. Nothing that
is written in a tick is read in the same tick, whatever the order of the combinators and however
their wires lead back to them.

## Main definitions

* `Network.drivers` — the combinators that write to a wire
* `Node.Ticks` — what a tick does to a combinator
* `Network.TickLaw` — what a tick does to a network

## Main results

* `Network.get?_state_step` — the signals on a wire after a tick
* `Network.Reachable.tickLaw_step` — a tick of a reachable network follows the law
-/

namespace CombinatorNet

/-! ### Writing to wires -/

/-- Adding one set to several different wires adds it to each of them once. -/
private theorem get?_foldl_merge (set : SignalSet) {wires : List String} (h : wires.Nodup)
    (state : WireState) (w : String) :
    (wires.foldl (fun state wire => state.insert wire (((state.get? wire).getD ∅).merge set))
        state).get? w =
      if w ∈ wires then some (((state.get? w).getD ∅).merge set) else state.get? w := by
  induction wires generalizing state with
  | nil => rfl
  | cons wire wires ih =>
    obtain ⟨hwire, hwires⟩ := List.nodup_cons.mp h
    rw [List.foldl_cons, ih hwires, NameMap.get?_insert]
    by_cases hw : w = wire
    · subst hw
      rw [if_neg hwire, if_pos rfl, if_pos List.mem_cons_self]
    · simp only [List.mem_cons, hw, false_or, if_false]

theorem Node.get?_write {node : Node} (h : node.outputs.Nodup) (state : WireState) (w : String) :
    (node.write state).get? w =
      if w ∈ node.outputs then some (((state.get? w).getD ∅).merge node.lastOutput)
      else state.get? w :=
  get?_foldl_merge node.lastOutput h state w

namespace Network

variable {n : Network}

/-- The combinators that write to a wire, in the order in which they were added. -/
def drivers (n : Network) (w : String) : List Node := n.nodes.filter (w ∈ ·.outputs)

theorem mem_drivers {w : String} {node : Node} :
    node ∈ n.drivers w ↔ node ∈ n.nodes ∧ w ∈ node.outputs := by
  rw [drivers, List.mem_filter, decide_eq_true_iff]

/-- A wire keeps its signals until the first combinator that drives it, and from there on sums up
what its combinators wrote. -/
private theorem get?_foldl_write {nodes : List Node} (h : ∀ node ∈ nodes, node.outputs.Nodup)
    (state : WireState) (w : String) :
    (nodes.foldl Node.write state).get? w =
      if nodes.filter (w ∈ ·.outputs) = [] then state.get? w
      else some (((nodes.filter (w ∈ ·.outputs)).map (·.lastOutput)).foldl SignalSet.merge
        ((state.get? w).getD ∅)) := by
  induction nodes generalizing state with
  | nil => rfl
  | cons node nodes ih =>
    obtain ⟨hnode, hnodes⟩ := List.forall_mem_cons.mp h
    rw [List.foldl_cons, ih hnodes, Node.get?_write hnode, List.filter_cons]
    by_cases hw : w ∈ node.outputs
    · simp only [hw, decide_true, if_true, Option.getD_some, reduceCtorEq, if_false, List.map_cons,
        List.foldl_cons]
      -- The first driver puts the wire into the state, the others add to it.
      split
      · next hnone => rw [hnone, List.map_nil, List.foldl_nil]
      · rfl
    · simp only [hw, decide_false, Bool.false_eq_true, if_false]

/-- The signals on a wire after a tick are the sum of what its drivers wrote; a wire without drivers
carries nothing. -/
theorem get?_state_step (h : Reachable n) (w : String) :
    n.step.state.get? w = if n.step.drivers w = [] then none
      else some (.mergeAll ((n.step.drivers w).map (·.lastOutput))) := by
  refine get?_foldl_write (fun node hnode => ?_) ∅ w
  obtain ⟨before, hbefore, rfl⟩ := List.mem_map.mp hnode
  rw [Node.outputs_step]
  exact h.nodup_outputs hbefore

/-- The sum is empty for a wire without drivers, too. -/
theorem wire_step (h : Reachable n) (w : String) :
    n.step.wire w = .mergeAll ((n.step.drivers w).map (·.lastOutput)) := by
  rw [wire, get?_state_step h]
  split
  · next hnone => rw [hnone]; rfl
  · rfl

end Network

/-! ### Reading from wires -/

theorem Node.canonical_input (state : WireState) (node : Node) : (node.input state).Canonical :=
  SignalSet.canonical_mergeAll _

/-- A combinator reads the saturating sum of its input wires, signal by signal. -/
theorem Node.get_input (state : WireState) (node : Node) (name : String) :
    (node.input state).get name =
      saturatedSum (node.inputs.map fun w => ((state.get? w).getD ∅).get name) := by
  rw [Node.input, SignalSet.mergeAll_filterMap, SignalSet.get_mergeAll, List.map_map]
  rfl

/-! ### The law -/

/-- What a tick does to a combinator, where `state` is what the wires carry before the tick. -/
structure Node.Ticks (state : WireState) (before after : Node) : Prop where
  /-- There is one set that the combinator reads, and all it does is determined by this set. -/
  reads : ∃ input : SignalSet, input.Canonical ∧
    (∀ name, input.get name =
      saturatedSum (before.inputs.map fun w => ((state.get? w).getD ∅).get name)) ∧
    (∀ name, after.lastOutput.get name = before.combinator.writes input name) ∧
    ∀ signal v, before.combinator = .display signal v →
      after.combinator = .display signal (input.get signal)
  /-- Signals of value 0 are left out of what is written, as from what is given to be written. -/
  canonical : (∀ values, before.combinator.stored? = some values → values.Canonical) →
    after.lastOutput.Canonical
  pulse : ∀ values active, before.combinator = .pulse values active →
    after.combinator = .pulse values false
  /-- Toggles, and all others without a state of their own, are as before. -/
  other : (∀ signal v, before.combinator ≠ .display signal v) →
    (∀ values active, before.combinator ≠ .pulse values active) →
    after.combinator = before.combinator
  inputs : after.inputs = before.inputs
  outputs : after.outputs = before.outputs
  span : after.span = before.span

/-- What a tick does to a network. -/
structure Network.TickLaw (before after : Network) : Prop where
  nodes : List.Forall₂ (Node.Ticks before.state) before.nodes after.nodes
  /-- The wires that are written to are the output wires, even if nothing is written. -/
  written : ∀ w, w ∈ after.state.names ↔ ∃ node ∈ before.nodes, w ∈ node.outputs
  canonical : ∀ w, (after.wire w).Canonical
  sums : ∀ w name, (after.wire w).get name =
    saturatedSum ((after.drivers w).map fun node => node.lastOutput.get name)
  tick : after.tick = before.tick + 1
  coloring : after.coloring = before.coloring
  colors : after.colors = before.colors
  layout : after.layout = before.layout
  settings : after.settings = before.settings

theorem Node.ticks_step (state : WireState) (node : Node) : node.Ticks state (node.step state) where
  reads := by
    refine ⟨node.input state, node.canonical_input state, node.get_input state, ?_, ?_⟩
    · exact Combinator.get_output (node.canonical_input state) node.combinator
    · intro signal v h
      rw [Node.step, h, Combinator.next]
  canonical := Combinator.canonical_output (node.canonical_input state)
  pulse values active h := by rw [Node.step, h, Combinator.next]
  other hdisplay hpulse := by
    rw [Node.step]
    cases hc : node.combinator with
    | display signal v => exact absurd hc (hdisplay signal v)
    | pulse values active => exact absurd hc (hpulse values active)
    | _ => rfl
  inputs := rfl
  outputs := rfl
  span := rfl

namespace Network

variable {n : Network}

theorem drivers_step_eq_nil_iff {w : String} :
    n.step.drivers w = [] ↔ ¬ ∃ node ∈ n.nodes, w ∈ node.outputs := by
  rw [List.eq_nil_iff_forall_not_mem]
  simp only [mem_drivers, nodes_step, List.mem_map]
  constructor
  · rintro hnone ⟨node, hnode, hw⟩
    exact hnone (node.step n.state) ⟨⟨node, hnode, rfl⟩, hw⟩
  · rintro hnone _ ⟨⟨node, hnode, rfl⟩, hw⟩
    exact hnone ⟨node, hnode, hw⟩

/-- Each combinator of a reachable network reads what the tick before left on its input wires, and
each wire then carries the saturating sum of what the combinators that drive it wrote, in the order
in which they were added. Nothing else of the network changes but the count of ticks. -/
theorem Reachable.tickLaw_step (h : Reachable n) : n.TickLaw n.step where
  nodes := by
    rw [nodes_step, List.forall₂_map_right_iff, List.forall₂_same]
    exact fun node _ => node.ticks_step n.state
  written w := by
    rw [NameMap.mem_names_iff, get?_state_step h]
    split
    · next hnone => simpa using drivers_step_eq_nil_iff.mp hnone
    · next hsome => simpa using not_not.mp (mt drivers_step_eq_nil_iff.mpr hsome)
  canonical w := by
    rw [wire_step h]
    exact SignalSet.canonical_mergeAll _
  sums w name := by
    rw [wire_step h, SignalSet.get_mergeAll, List.map_map]
    rfl
  tick := tick_step n
  coloring := coloring_step n
  colors := rfl
  layout := layout_step n
  settings := settings_step n

/-- Three constants and a copy of the wire that all of them share. -/
def sharedWire : List Statement :=
  [⟨.constant .constant [("x", 2147483647)] ["A"], .nowhere⟩,
    ⟨.constant .constant [("x", 5)] ["A"], .nowhere⟩,
    ⟨.binary ["A"] ⟨.signal "x", .mul, .literal 1, "x", false, .nowhere⟩ ["A", "B"], .nowhere⟩,
    ⟨.constant .constant [("x", -3)] ["A"], .nowhere⟩]

/-- In the first tick the copy writes 0, and 5 is lost to saturation before 3 is taken away. -/
theorem tickLaw_step_sharedWire : ∃ n, ofStatements sharedWire {} = .ok n ∧
    n.TickLaw n.step ∧ (n.step.wire "A").get "x" = 2147483644 := by
  have hvalue : ((ofStatements sharedWire {}).map fun n => (n.step.wire "A").get "x") =
      .ok 2147483644 := by rfl
  cases hn : ofStatements sharedWire {} with
  | error e => rw [hn] at hvalue; cases hvalue
  | ok n =>
    rw [hn] at hvalue
    exact ⟨n, rfl, Reachable.tickLaw_step (.ofStatements hn), Except.ok.inj hvalue⟩

end Network

end CombinatorNet
