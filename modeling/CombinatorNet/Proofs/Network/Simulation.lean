import CombinatorNet.Proofs.Network.Tick

/-!
# The simulation of a network

Of the requests to a network, ticks and switches make up its simulation. Before the first tick no
wire carries anything. After a tick, a wire carries what its drivers wrote in that tick, and what a
driver wrote is decided by its own state and by the wires that it reads. So two networks, or one
network in two ticks, are compared wire by wire and driver by driver.

## Main definitions

* `NetworkCall.switch?` — the combinator that a request switches
* `Network.contributions` — what the drivers of a wire wrote in the latest tick

## Main results

* `Network.serve_switch` — a switch acts on one combinator, and on no other
* `Network.serve_cases` — all that a request does to combinators and wires
* `Network.Reachable.state_eq_empty`, `Network.Reachable.lastOutput_eq_empty` — before the first
  tick nothing is carried, and nothing was written
* `Network.Reachable.canonical_wire` — what wires carry is canonical at all times
* `Network.contributions_step`, `Network.get?_state_step_eq` — what the drivers of a wire write in a
  tick, and what the wire carries then
-/

namespace CombinatorNet

/-! ### Requests -/

/-- A combinator with its switch in the other position, if it is a button. -/
def Combinator.toggled : Combinator → Combinator
  | toggle values active => toggle values !active
  | pulse values active => pulse values !active
  | c => c

/-- A node with another combinator in its place. -/
def Node.mapCombinator (f : Combinator → Combinator) (node : Node) : Node :=
  { node with combinator := f node.combinator }

/-- The combinator that a request switches, with what it makes of it. -/
def NetworkCall.switch? : NetworkCall → Option (Nat × (Combinator → Combinator))
  | setActive index active => some (index, Combinator.setActive active)
  | toggleActive index => some (index, Combinator.toggled)
  | _ => none

/-- Only buttons are changed by a switch. -/
theorem Combinator.setActive_eq_self {c : Combinator} (h : c.active? = none) (active : Bool) :
    c.setActive active = c := by
  cases c with
  | toggle | pulse => cases h
  | _ => rfl

theorem Combinator.toggled_eq_self {c : Combinator} (h : c.active? = none) : c.toggled = c := by
  cases c with
  | toggle | pulse => cases h
  | _ => rfl

theorem Combinator.toggled_eq_setActive {c : Combinator} {active : Bool}
    (h : c.active? = some active) : c.toggled = c.setActive !active := by
  cases c <;> cases h <;> rfl

namespace Network

variable {n m : Network} {w : String} {call : NetworkCall}

/-- Whether the button with an index is on; nothing if that is no button. -/
def active? (n : Network) (index : Nat) : Option Bool :=
  n.nodes[index]?.bind fun node => node.combinator.active?

/-- The network with another combinator in the place of one. -/
def mapCombinator (n : Network) (index : Nat) (f : Combinator → Combinator) : Network :=
  { n with nodes := n.nodes.modify index (Node.mapCombinator f) }

theorem mapCombinator_congr {index : Nat} {f g : Combinator → Combinator}
    (h : ∀ node, n.nodes[index]? = some node → f node.combinator = g node.combinator) :
    n.mapCombinator index f = n.mapCombinator index g := by
  rw [mapCombinator, mapCombinator, List.modify_eq_set_getElem?, List.modify_eq_set_getElem?]
  cases hnode : n.nodes[index]? with
  | none => rfl
  | some node => simp [Node.mapCombinator, h node hnode]

theorem mapCombinator_id (n : Network) (index : Nat) : n.mapCombinator index id = n := by
  rw [mapCombinator, show Node.mapCombinator id = id from rfl, List.modify_id]

/-- Only a button can be switched. -/
theorem setActive_eq (n : Network) (index : Nat) (active : Bool) :
    (∃ b, n.active? index = some b ∧
      n.setActive index active = .ok (n.mapCombinator index (Combinator.setActive active))) ∨
    n.active? index = none ∧ ∃ e, n.setActive index active = .error e := by
  rw [active?, setActive, mapCombinator, List.modify_eq_set_getElem?]
  cases n.nodes[index]? with
  | none => exact .inr ⟨rfl, _, rfl⟩
  | some node =>
    rw [Option.bind_some]
    simp only
    cases hactive : node.combinator.active? with
    | none => exact .inr ⟨rfl, _, rfl⟩
    | some b => exact .inl ⟨b, rfl, rfl⟩

theorem toggleActive_eq (n : Network) (index : Nat) :
    (∃ b, n.active? index = some b ∧
      n.toggleActive index = .ok (!b, n.mapCombinator index Combinator.toggled)) ∨
    n.active? index = none ∧ ∃ e, n.toggleActive index = .error e := by
  rw [toggleActive]
  cases hnode : n.nodes[index]? with
  | none => exact .inr ⟨by rw [active?, hnode]; rfl, _, rfl⟩
  | some node =>
    have heq : n.active? index = node.combinator.active? := by rw [active?, hnode]; rfl
    simp only
    cases hactive : node.combinator.active? with
    | none => exact .inr ⟨heq.trans hactive, _, rfl⟩
    | some b =>
      refine .inl ⟨b, heq.trans hactive, ?_⟩
      obtain ⟨_, -, hset⟩ | ⟨hnone, -⟩ := n.setActive_eq index !b
      · rw [mapCombinator_congr (g := Combinator.setActive !b)]
        · simp only [hset]
          rfl
        · intro node' hnode'
          cases hnode.symm.trans hnode'
          exact Combinator.toggled_eq_setActive hactive
      · cases hnone.symm.trans (heq.trans hactive)

/-- A switch acts on one combinator, and does nothing to what is no button. -/
theorem serve_switch {index : Nat} {f : Combinator → Combinator}
    (h : call.switch? = some (index, f)) : (n.serve call).2 = n.mapCombinator index f := by
  have hsame : n.active? index = none → n.mapCombinator index f = n := by
    intro hnone
    refine (mapCombinator_congr fun node hnode => ?_).trans (n.mapCombinator_id index)
    rw [active?, hnode] at hnone
    cases call <;> cases h
    · exact Combinator.setActive_eq_self hnone _
    · exact Combinator.toggled_eq_self hnone
  cases call <;> cases h
  · next active =>
    rw [serve]
    obtain ⟨b, -, heq⟩ | ⟨hnone, e, heq⟩ := n.setActive_eq index active
    · rw [heq]; rfl
    · rw [heq, hsame hnone]; rfl
  · rw [serve]
    obtain ⟨b, -, heq⟩ | ⟨hnone, e, heq⟩ := n.toggleActive_eq index
    · rw [heq]; rfl
    · rw [heq, hsame hnone]; rfl

/-- All that requests do to combinators and wires. -/
theorem serve_cases (n : Network) (call : NetworkCall) :
    (∃ c inputs outputs span coloring layout, (n.serve call).2 =
      { n with nodes := n.nodes ++ [⟨c, inputs, outputs, span, ∅⟩], coloring, layout }) ∨
    (∃ coloring layout, (n.serve call).2 = { n with coloring, layout }) ∨
    call = .step ∨
    ∃ index f, call.switch? = some (index, f) := by
  cases call with
  | add c inputs outputs span =>
    rw [serve]
    obtain ⟨_, -, heq⟩ | ⟨-, heq⟩ := n.add_cases c inputs outputs span
    · exact .inr (.inl ⟨_, n.layout, by rw [heq]⟩)
    · exact .inl ⟨c, inputs, outputs, span, _, _, by rw [heq]⟩
  | paint wire color span =>
    rw [serve]
    obtain ⟨_, -, heq⟩ | ⟨-, heq⟩ := n.paint_cases wire color span
    · exact .inr (.inl ⟨_, n.layout, by rw [heq]⟩)
    · exact .inr (.inl ⟨_, _, by rw [heq]⟩)
  | step => exact .inr (.inr (.inl rfl))
  | setActive | toggleActive => exact .inr (.inr (.inr ⟨_, _, rfl⟩))
  | finalize =>
    obtain ⟨layout, heq⟩ := n.exists_serve_finalize
    exact .inr (.inl ⟨n.coloring, layout, heq⟩)

/-! ### Before the first tick -/

theorem lastOutput_of_mem_mapCombinator {P : SignalSet → Prop} {index : Nat}
    {f : Combinator → Combinator} (h : ∀ node ∈ n.nodes, P node.lastOutput) :
    ∀ node ∈ (n.mapCombinator index f).nodes, P node.lastOutput := by
  intro node hnode
  obtain ⟨i, hi⟩ := List.mem_iff_getElem?.mp hnode
  rw [mapCombinator, List.getElem?_modify] at hi
  obtain ⟨before, hbefore, rfl⟩ := Option.map_eq_some_iff.mp hi
  have hP := h before (List.mem_of_getElem? hbefore)
  split
  · exact hP
  · exact hP

private theorem Reachable.before_first_tick (h : Reachable n) :
    n.tick = 0 → n.state = ∅ ∧ ∀ node ∈ n.nodes, node.lastOutput = ∅ := by
  refine h.induction
    (P := fun n => n.tick = 0 → n.state = ∅ ∧ ∀ node ∈ n.nodes, node.lastOutput = ∅)
    (fun _ _ => ⟨rfl, List.forall_mem_nil _⟩) fun n call _ ih => ?_
  obtain ⟨c, inputs, outputs, span, coloring, layout, heq⟩ | ⟨coloring, layout, heq⟩ | rfl |
    ⟨index, f, hswitch⟩ := n.serve_cases call
  · rw [heq]
    intro htick
    obtain ⟨hstate, hnodes⟩ := ih htick
    exact ⟨hstate, List.forall_mem_append.mpr ⟨hnodes, by simp⟩⟩
  · rw [heq]
    exact ih
  · exact nofun
  · rw [serve_switch hswitch]
    intro htick
    obtain ⟨hstate, hnodes⟩ := ih htick
    exact ⟨hstate, lastOutput_of_mem_mapCombinator (P := (· = ∅)) hnodes⟩

theorem Reachable.state_eq_empty (h : Reachable n) (htick : n.tick = 0) : n.state = ∅ :=
  (h.before_first_tick htick).1

theorem Reachable.lastOutput_eq_empty (h : Reachable n) (htick : n.tick = 0) {node : Node}
    (hnode : node ∈ n.nodes) : node.lastOutput = ∅ :=
  (h.before_first_tick htick).2 node hnode

/-! ### What wires carry -/

theorem Reachable.canonical_wire (h : Reachable n) : ∀ w, (n.wire w).Canonical := by
  refine h.induction (P := fun n => ∀ w, (n.wire w).Canonical)
    (fun _ _ => SignalSet.canonical_empty) fun n call hn ih => ?_
  obtain ⟨c, inputs, outputs, span, coloring, layout, heq⟩ | ⟨coloring, layout, heq⟩ | rfl |
    ⟨index, f, hswitch⟩ := n.serve_cases call
  · rw [heq]
    exact ih
  · rw [heq]
    exact ih
  · exact hn.tickLaw_step.canonical
  · rw [serve_switch hswitch]
    exact ih

end Network

/-- A combinator reads the same if its wires carry the same. -/
theorem Node.input_congr {node : Node} {state state' : WireState}
    (h : ∀ u ∈ node.inputs, state.get? u = state'.get? u) :
    node.input state = node.input state' := by
  rw [input, input, List.filterMap_congr h]

/-- What a combinator wrote to a wire in the latest tick, if it drives that wire. -/
def Node.contribution? (w : String) (node : Node) : Option SignalSet :=
  if w ∈ node.outputs then some node.lastOutput else none

namespace Network

variable {n m : Network} {w : String}

/-- What the drivers of a wire wrote in the latest tick, in the order in which they were added. -/
def contributions (n : Network) (w : String) : List SignalSet :=
  n.nodes.filterMap (Node.contribution? w)

theorem contributions_eq_map_drivers (n : Network) (w : String) :
    n.contributions w = (n.drivers w).map (·.lastOutput) := by
  rw [contributions, drivers]
  induction n.nodes with
  | nil => rfl
  | cons node nodes ih =>
    rw [List.filterMap_cons, List.filter_cons, ih, Node.contribution?]
    by_cases hw : w ∈ node.outputs <;> simp [hw]

theorem map_get_drivers (n : Network) (w name : String) :
    ((n.drivers w).map fun node => node.lastOutput.get name) =
      (n.contributions w).map (·.get name) := by
  rw [contributions_eq_map_drivers, List.map_map]
  rfl

/-- In a tick, each driver of a wire writes what it makes of the wires that it reads. -/
theorem contributions_step (n : Network) (w : String) : n.step.contributions w =
    (n.drivers w).map fun node => node.combinator.output (node.input n.state) := by
  rw [contributions_eq_map_drivers, drivers, drivers, nodes_step, List.filter_map, List.map_map]
  rfl

/-- After a tick, a wire carries the sum of what its drivers wrote. -/
theorem get?_state_step_eq (h : Reachable n) (w : String) : n.step.state.get? w =
    if n.step.contributions w = [] then none else some (.mergeAll (n.step.contributions w)) := by
  rw [get?_state_step h, contributions_eq_map_drivers]
  simp only [List.map_eq_nil_iff]

/-- If the drivers wrote the same, the wire carries the same. -/
theorem get?_state_step_congr (hn : Reachable n) (hm : Reachable m)
    (h : n.step.contributions w = m.step.contributions w) :
    n.step.state.get? w = m.step.state.get? w := by
  rw [get?_state_step_eq hn, get?_state_step_eq hm, h]

end Network

end CombinatorNet
