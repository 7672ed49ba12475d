import CombinatorNet.Proofs.Network.Simulation

/-!
# Networks side by side

Two networks are run side by side where each combinator of the one has a counterpart in the other,
or some of them do. A switch of the one is then passed on to the counterpart of what it switches,
and left out if there is none. Counterparts that read the same write the same.

## Main definitions

* `Node.Counterpart` — combinators that differ at most in the order of the wires on a side, and in
  what they show and wrote
* `Network.Corresponds` — each combinator with an index stands to that with the corresponding index
  in a relation
* `NetworkCall.relocate?` — a request passed on to the counterpart of what it switches

## Main results

* `Node.Counterpart.input_eq` — counterparts read the same from wires that carry the same
* `Network.Corresponds.serve` — requests other than ticks and demands keep the correspondence
* `Network.Corresponds.step`, `Network.Corresponds.step_same` — what ticks make of it
* `Network.contributions_eq_of_counterparts` — what the drivers of a wire wrote, by their
  counterparts
-/

namespace CombinatorNet

/-! ### Counterparts -/

namespace Combinator

/-- A combinator without the value that it shows, if it is a display. -/
def withoutReading : Combinator → Combinator
  | display signal _ => display signal 0
  | c => c

theorem output_withoutReading (c : Combinator) (input : SignalSet) :
    c.withoutReading.output input = c.output input := by
  cases c <;> rfl

theorem next_withoutReading (c : Combinator) (input : SignalSet) :
    c.withoutReading.next input = c.next input := by
  cases c <;> rfl

theorem active?_withoutReading (c : Combinator) : c.withoutReading.active? = c.active? := by
  cases c <;> rfl

/-- What a tick makes of a combinator depends on its input only in what is shown. -/
theorem withoutReading_next (c : Combinator) (input : SignalSet) :
    (c.next input).withoutReading = c.withoutReading.next ∅ := by
  cases c <;> rfl

theorem withoutReading_of_switch? {call : NetworkCall} {index : Nat} {f : Combinator → Combinator}
    (h : call.switch? = some (index, f)) (c : Combinator) :
    (f c).withoutReading = f c.withoutReading := by
  cases call <;> cases h <;> cases c <;> rfl

end Combinator

/-- The same combinator with the same switch, with the same wires on each side in any order. What it
shows, and what it wrote, may differ. -/
structure Node.Counterpart (a b : Node) : Prop where
  combinator : a.combinator.withoutReading = b.combinator.withoutReading
  inputs : a.inputs.Perm b.inputs
  outputs : a.outputs.Perm b.outputs

instance (a b : Node) : Decidable (a.Counterpart b) :=
  decidable_of_iff (a.combinator.withoutReading = b.combinator.withoutReading ∧
    a.inputs.Perm b.inputs ∧ a.outputs.Perm b.outputs)
    ⟨fun ⟨hcombinator, hinputs, houtputs⟩ => ⟨hcombinator, hinputs, houtputs⟩,
      fun ⟨hcombinator, hinputs, houtputs⟩ => ⟨hcombinator, hinputs, houtputs⟩⟩

/-- Counterparts that wrote the same. -/
structure Node.Twin (a b : Node) : Prop extends a.Counterpart b where
  lastOutput : a.lastOutput = b.lastOutput

namespace Node

variable {a b : Node} {state state' : WireState}

theorem Counterpart.active?_eq (h : a.Counterpart b) :
    a.combinator.active? = b.combinator.active? := by
  rw [← Combinator.active?_withoutReading, h.combinator, Combinator.active?_withoutReading]

theorem Counterpart.mapCombinator (h : a.Counterpart b) {f : Combinator → Combinator}
    (hf : ∀ c, (f c).withoutReading = f c.withoutReading) :
    (a.mapCombinator f).Counterpart (b.mapCombinator f) where
  combinator := by rw [Node.mapCombinator, Node.mapCombinator, hf, hf, h.combinator]
  inputs := h.inputs
  outputs := h.outputs

theorem Twin.mapCombinator (h : a.Twin b) {f : Combinator → Combinator}
    (hf : ∀ c, (f c).withoutReading = f c.withoutReading) :
    (a.mapCombinator f).Twin (b.mapCombinator f) :=
  ⟨h.toCounterpart.mapCombinator hf, h.lastOutput⟩

/-- Counterparts remain so, whatever they read. -/
theorem Counterpart.step (h : a.Counterpart b) (state state' : WireState) :
    (a.step state).Counterpart (b.step state') where
  combinator := by
    rw [Node.step, Node.step, Combinator.withoutReading_next, h.combinator,
      Combinator.withoutReading_next]
  inputs := h.inputs
  outputs := h.outputs

/-- Counterparts read the same from wires that carry the same: with at most two wires on a side, the
order does not matter. -/
theorem Counterpart.input_eq (h : a.Counterpart b) (hlen : a.inputs.length ≤ 2)
    (hcanonical : ∀ w, ((state.get? w).getD ∅).Canonical)
    (hstate : ∀ w ∈ a.inputs, state.get? w = state'.get? w) : a.input state = b.input state' := by
  refine SignalSet.ext_get (a.canonical_input state) (b.canonical_input state') fun name => ?_
  have hreads : (a.inputs.map fun w => ((state.get? w).getD ∅).get name) =
      a.inputs.map fun w => ((state'.get? w).getD ∅).get name :=
    List.map_congr_left fun w hw => by rw [hstate w hw]
  rw [Node.get_input, Node.get_input]
  refine saturatedSum_perm_of_length_le_two (by rwa [List.length_map])
    (List.forall_mem_map.mpr fun w _ => SignalSet.inRange_get (hcanonical w) name) ?_
  rw [hreads]
  exact h.inputs.map _

/-- Counterparts that read the same write the same, and are the same afterwards. -/
theorem Counterpart.step_eq (h : a.Counterpart b) (hinput : a.input state = b.input state') :
    (a.step state).combinator = (b.step state').combinator ∧
      (a.step state).lastOutput = (b.step state').lastOutput := by
  constructor
  · rw [Node.step, Node.step, ← Combinator.next_withoutReading, h.combinator, hinput,
      Combinator.next_withoutReading]
  · rw [Node.step, Node.step, ← Combinator.output_withoutReading, h.combinator, hinput,
      Combinator.output_withoutReading]

end Node

/-! ### Correspondence -/

/-- A request for the counterpart of the combinator that it switches, if there is one. Nothing is
passed on of demands. -/
def NetworkCall.relocate? (index? : Nat → Option Nat) : NetworkCall → Option NetworkCall
  | add .. | paint .. => none
  | step => some step
  | setActive index active => (index? index).map fun k => setActive k active
  | toggleActive index => (index? index).map toggleActive
  | finalize => some finalize

namespace Network

variable {R R' : Node → Node → Prop} {index? : Nat → Option Nat} {n m : Network}
  {call : NetworkCall}

/-- Combinators with corresponding indices, or beyond the end of both networks, are related. No two
indices have the same counterpart. -/
structure Corresponds (R : Node → Node → Prop) (index? : Nat → Option Nat) (n m : Network) :
    Prop where
  injective : ∀ {i j k}, index? i = some k → index? j = some k → i = j
  related : ∀ {i k}, index? i = some k → Option.Rel R n.nodes[i]? m.nodes[k]?

/-- Lists that are related element by element are so at each index. -/
theorem rel_getElem?_of_forall₂ {α β : Type} {P : α → β → Prop} {xs : List α} {ys : List β}
    (h : List.Forall₂ P xs ys) (i : Nat) : Option.Rel P xs[i]? ys[i]? := by
  induction h generalizing i with
  | nil => exact .none
  | cons hab _ ih =>
    cases i with
    | zero => exact .some hab
    | succ i => exact ih i

private theorem rel_map {α β α' β' : Type} {P : α → β → Prop} {Q : α' → β' → Prop} {f : α → α'}
    {g : β → β'} {x : Option α} {y : Option β} (h : Option.Rel P x y)
    (hfg : ∀ a b, x = some a → y = some b → P a b → Q (f a) (g b)) :
    Option.Rel Q (x.map f) (y.map g) := by
  cases h with
  | some hab => exact .some (hfg _ _ rfl rfl hab)
  | none => exact .none

/-- What a tick makes of a correspondence, combinator by combinator. -/
theorem Corresponds.step (h : n.Corresponds R index? m)
    (hstep : ∀ {i k a b}, index? i = some k → n.nodes[i]? = some a → m.nodes[k]? = some b → R a b →
      R' (a.step n.state) (b.step m.state)) : n.step.Corresponds R' index? m.step where
  injective := h.injective
  related hk := by
    rw [nodes_step, nodes_step, List.getElem?_map, List.getElem?_map]
    exact rel_map (h.related hk) fun a b ha hb hab => hstep hk ha hb hab

theorem Corresponds.mono (h : n.Corresponds R index? m)
    (hR : ∀ {a b}, a ∈ n.nodes → b ∈ m.nodes → R a b → R' a b) : n.Corresponds R' index? m where
  injective := h.injective
  related {i k} hk := by
    have hmap : Option.Rel R' (n.nodes[i]?.map id) (m.nodes[k]?.map id) :=
      rel_map (h.related hk) fun a b ha hb hab =>
        hR (List.mem_of_getElem? ha) (List.mem_of_getElem? hb) hab
    rwa [Option.map_id] at hmap

/-- Combinators that read the same as their counterparts write the same, and are the same then. -/
theorem Corresponds.step_same (h : n.Corresponds Node.Counterpart index? m) (hn : Reachable n)
    (hreads : ∀ {i k a}, index? i = some k → n.nodes[i]? = some a →
      ∀ w ∈ a.inputs, n.state.get? w = m.state.get? w) :
    n.step.Corresponds (fun a b => a.Twin b ∧ a.combinator = b.combinator) index? m.step := by
  refine h.step fun {i k a b} hk ha _ hab => ?_
  have hlen : a.inputs.length ≤ 2 :=
    (hn.nodup_of_mem_wiring _ (List.mem_map_of_mem (List.mem_of_getElem? ha)) a.inputs
      (by simp)).1
  obtain ⟨hcombinator, hlast⟩ :=
    hab.step_eq (hab.input_eq hlen hn.canonical_wire (hreads hk ha))
  exact ⟨⟨hab.step _ _, hlast⟩, hcombinator⟩

theorem Corresponds.mapCombinator (h : n.Corresponds R index? m) {f : Combinator → Combinator}
    (hf : ∀ {a b}, R a b → R (a.mapCombinator f) (b.mapCombinator f)) (index : Nat) :
    (n.mapCombinator index f).Corresponds R index?
      ((index? index).elim m fun k => m.mapCombinator k f) where
  injective := h.injective
  related {i k} hk := by
    have hrelated := h.related hk
    have hmodify : ∀ (l : Network) (j : Nat), (l.mapCombinator j f).nodes =
        l.nodes.modify j (Node.mapCombinator f) := fun _ _ => rfl
    cases hindex : index? index with
    | none =>
      -- The combinator that is switched has no counterpart, so it is another one.
      have hne : index ≠ i := by
        rintro rfl
        cases hindex.symm.trans hk
      rw [Option.elim_none, hmodify, List.getElem?_modify]
      simpa only [hne, if_false, Option.map_eq_map, Option.map_id'] using hrelated
    | some k' =>
      rw [Option.elim_some, hmodify, hmodify, List.getElem?_modify, List.getElem?_modify]
      by_cases hi : index = i
      · subst hi
        cases hindex.symm.trans hk
        simp only [if_true]
        exact rel_map hrelated fun _ _ _ _ hab => hf hab
      · have hne : k' ≠ k := fun heq => hi (h.injective (heq ▸ hindex) hk)
        simpa only [hi, hne, if_false, Option.map_eq_map, Option.map_id'] using hrelated

theorem serveAll_relocate? {index : Nat} {f : Combinator → Combinator}
    (h : call.switch? = some (index, f)) (m : Network) :
    m.serveAll (call.relocate? index?).toList =
      (index? index).elim m fun k => m.mapCombinator k f := by
  cases call <;> cases h <;> rw [NetworkCall.relocate?]
  all_goals
    cases index? index with
    | none => rfl
    | some k => exact serve_switch rfl

theorem serveAll_filterMap_cons (f : NetworkCall → Option NetworkCall) (m : Network)
    (call : NetworkCall) (calls : List NetworkCall) :
    m.serveAll ((call :: calls).filterMap f) =
      (m.serveAll (f call).toList).serveAll (calls.filterMap f) := by
  rw [List.filterMap_cons]
  cases f call <;> rfl

/-- Requests that are neither ticks nor demands leave the wires as they are, and keep what switches
keep. -/
theorem Corresponds.serve (h : n.Corresponds R index? m)
    (hR : ∀ {f : Combinator → Combinator}, (∀ c, (f c).withoutReading = f c.withoutReading) →
      ∀ {a b}, R a b → R (a.mapCombinator f) (b.mapCombinator f))
    (hcall : call.isDemand = false) (hstep : call ≠ .step) :
    (n.serve call).2.Corresponds R index? (m.serveAll (call.relocate? index?).toList) ∧
      (n.serve call).2.state = n.state ∧
      (m.serveAll (call.relocate? index?).toList).state = m.state := by
  have hswitch : ∀ index f, call.switch? = some (index, f) →
      (n.serve call).2.Corresponds R index? (m.serveAll (call.relocate? index?).toList) ∧
        (n.serve call).2.state = n.state ∧
        (m.serveAll (call.relocate? index?).toList).state = m.state := by
    intro index f hf
    rw [serve_switch hf, serveAll_relocate? hf]
    refine ⟨h.mapCombinator (hR (Combinator.withoutReading_of_switch? hf)) index, rfl, ?_⟩
    cases index? index <;> rfl
  cases call with
  | add | paint => cases hcall
  | step => exact absurd rfl hstep
  | setActive | toggleActive => exact hswitch _ _ rfl
  | finalize =>
    obtain ⟨layout, hn⟩ := n.exists_serve_finalize
    obtain ⟨layout', hm⟩ := m.exists_serve_finalize
    rw [NetworkCall.relocate?, Option.toList_some, serveAll_cons, serveAll_nil, hn, hm]
    exact ⟨⟨h.injective, h.related⟩, rfl, rfl⟩

/-! ### What counterparts write to a wire -/

private theorem filterMap_range_getElem? {α β : Type} (xs : List α) (f : α → Option β) :
    ((List.range xs.length).filterMap fun i => xs[i]?.bind f) = xs.filterMap f := by
  induction xs using List.reverseRecOn with
  | nil => rfl
  | append_singleton xs x ih =>
    rw [List.length_append, List.length_singleton, List.range_succ, List.filterMap_append,
      List.filterMap_append, ← ih]
    congr 1
    · refine List.filterMap_congr fun i hi => ?_
      rw [List.getElem?_append_left (List.mem_range.mp hi)]
    · rw [List.filterMap_cons, List.filterMap_cons, List.getElem?_concat_length, Option.bind_some]
      rfl

/-- Twins contribute the same to each wire. -/
theorem Corresponds.contribution?_eq (h : n.Corresponds Node.Twin index? m) {i k : Nat}
    (hk : index? i = some k) (w : String) :
    n.nodes[i]?.bind (Node.contribution? w) = m.nodes[k]?.bind (Node.contribution? w) := by
  have hrelated := h.related hk
  generalize n.nodes[i]? = x, m.nodes[k]? = y at hrelated ⊢
  cases hrelated with
  | none => rfl
  | some hab =>
    rw [Option.bind_some, Option.bind_some, Node.contribution?, Node.contribution?,
      hab.lastOutput]
    simp only [hab.outputs.mem_iff]

theorem contributions_eq_range (n : Network) (w : String) : n.contributions w =
    (List.range n.nodes.length).filterMap fun i => n.nodes[i]?.bind (Node.contribution? w) :=
  (filterMap_range_getElem? _ _).symm

/-- What the drivers of a wire wrote is what their counterparts did, one after the other, provided
that drivers have counterparts, and that these wrote the same. -/
theorem contributions_eq_of_counterparts (m : Network) (index? : Nat → Option Nat) {w : String}
    (h : ∀ i < n.nodes.length, (n.nodes[i]?.bind (Node.contribution? w)) =
      (index? i).bind fun k => m.nodes[k]?.bind (Node.contribution? w)) :
    n.contributions w = ((List.range n.nodes.length).filterMap index?).filterMap
      fun k => m.nodes[k]?.bind (Node.contribution? w) := by
  rw [contributions_eq_range, List.filterMap_filterMap]
  exact List.filterMap_congr fun i hi => h i (List.mem_range.mp hi)

end Network

end CombinatorNet
