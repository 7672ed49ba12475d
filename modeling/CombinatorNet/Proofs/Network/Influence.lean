import CombinatorNet.Proofs.Network.Counterparts

/-!
# What a combinator can act on

A combinator acts on others by wires only. If the combinators that drive a set of wires read from no
other wires, then all the others are without influence on the set: a network without them carries
the same there.

## Main definitions

* `Node.Drives`, `Network.Closed` — the drivers of a set of wires, and a set that they do not read
  beyond
* `Network.keptIndex?` — the index of a combinator among the drivers of a set
* `NetworkCall.Spares` — a request that adds no driver to a set
* `Network.PartOn` — a network that stands for another one on a set of wires

## Main results

* `Network.PartOn.step` — a tick leads to the same signals on the set
* `Network.PartOn.serve`, `Network.PartOn.serveAll` — so does every request, and every run
* `Network.Closed.sameOnWires` — the other combinators are without influence
-/

namespace CombinatorNet

/-! ### The index among some elements of a list -/

section IndexAmong

variable {α : Type} {p : α → Bool} {x : α} {xs : List α} {i j k l : Nat}

/-- The index of an element among those with a property, if it has the property. -/
def indexAmong? (p : α → Bool) (xs : List α) (i : Nat) : Option Nat :=
  xs[i]?.bind fun x => if p x then some ((xs.take i).countP p) else none

theorem indexAmong?_cons_zero (p : α → Bool) (x : α) (xs : List α) :
    indexAmong? p (x :: xs) 0 = if p x then some 0 else none := rfl

theorem indexAmong?_cons_succ (p : α → Bool) (x : α) (xs : List α) (i : Nat) :
    indexAmong? p (x :: xs) (i + 1) =
      (indexAmong? p xs i).map fun k => if p x then k + 1 else k := by
  rw [indexAmong?, indexAmong?, List.getElem?_cons_succ, List.take_succ_cons]
  cases xs[i]? with
  | none => rfl
  | some y =>
    simp only [Option.bind_some, List.countP_cons]
    cases p y <;> cases p x <;> rfl

theorem getElem?_of_indexAmong? (h : indexAmong? p xs i = some k) :
    (xs.filter p)[k]? = xs[i]? := by
  induction xs generalizing i k with
  | nil => cases h
  | cons x xs ih =>
    cases i with
    | zero =>
      rw [indexAmong?_cons_zero] at h
      split at h
      · next hx => cases h; rw [List.filter_cons_of_pos hx]; rfl
      · cases h
    | succ i =>
      rw [indexAmong?_cons_succ] at h
      obtain ⟨k, hk, rfl⟩ := Option.map_eq_some_iff.mp h
      rw [List.filter_cons, List.getElem?_cons_succ, ← ih hk]
      cases p x <;> rfl

theorem indexAmong?_eq_some_iff :
    indexAmong? p xs i = some k ↔ ∃ x, xs[i]? = some x ∧ p x ∧ (xs.take i).countP p = k := by
  rw [indexAmong?, Option.bind_eq_some_iff]
  simp only [Option.ite_none_right_eq_some, Option.some.injEq]

theorem of_indexAmong?_eq_none (h : indexAmong? p xs i = none) (hx : xs[i]? = some x) : ¬p x := by
  intro hp
  rw [indexAmong?, hx, Option.bind_some, if_pos hp] at h
  cases h

theorem indexAmong?_lt (hi : indexAmong? p xs i = some j) (hk : indexAmong? p xs k = some l)
    (hlt : i < k) : j < l := by
  obtain ⟨x, hx, hp, rfl⟩ := indexAmong?_eq_some_iff.mp hi
  obtain ⟨-, -, -, rfl⟩ := indexAmong?_eq_some_iff.mp hk
  have hnext : (xs.take (i + 1)).countP p = (xs.take i).countP p + 1 := by
    rw [List.take_add_one, hx, List.countP_append, Option.toList_some, List.countP_singleton,
      if_pos hp]
  have hle : (xs.take (i + 1)).countP p ≤ (xs.take k).countP p :=
    (List.take_sublist_take_left hlt).countP_le
  omega

theorem indexAmong?_injective (hi : indexAmong? p xs i = some k)
    (hj : indexAmong? p xs j = some k) : i = j := by
  obtain hlt | heq | hgt := Nat.lt_trichotomy i j
  · exact absurd (indexAmong?_lt hi hj hlt) (Nat.lt_irrefl k)
  · exact heq
  · exact absurd (indexAmong?_lt hj hi hgt) (Nat.lt_irrefl k)

/-- The elements with the property come one after the other. -/
theorem filterMap_range_indexAmong? (p : α → Bool) (xs : List α) :
    (List.range xs.length).filterMap (indexAmong? p xs) = List.range (xs.filter p).length := by
  induction xs with
  | nil => rfl
  | cons x xs ih =>
    rw [List.length_cons, List.range_succ_eq_map, List.filterMap_cons, List.filterMap_map,
      indexAmong?_cons_zero, List.filter_cons]
    have hrest : (indexAmong? p (x :: xs)) ∘ Nat.succ =
        fun i => (indexAmong? p xs i).map fun k => if p x then k + 1 else k :=
      funext fun i => indexAmong?_cons_succ p x xs i
    rw [hrest, ← List.map_filterMap, ih]
    cases p x
    · simp
    · simp [List.range_succ_eq_map]

end IndexAmong

/-! ### A set of wires and its drivers -/

variable {S : Set String}

/-- Whether a combinator drives a wire of a set. -/
def Node.Drives (S : Set String) (node : Node) : Prop := ∃ w ∈ node.outputs, w ∈ S

instance [DecidablePred (· ∈ S)] (node : Node) : Decidable (node.Drives S) :=
  inferInstanceAs (Decidable (∃ w ∈ node.outputs, w ∈ S))

/-- A request that does not add a combinator which drives a wire of a set. -/
def NetworkCall.Spares (S : Set String) : NetworkCall → Prop
  | add _ _ outputs _ => ∀ w ∈ outputs, w ∉ S
  | _ => True

namespace Network

variable {n m : Network} {index? : Nat → Option Nat}

/-- The combinators that drive a wire of a set read only from wires of the set. -/
def Closed (S : Set String) (n : Network) : Prop :=
  ∀ node ∈ n.nodes, node.Drives S → ∀ w ∈ node.inputs, w ∈ S

instance [DecidablePred (· ∈ S)] (n : Network) : Decidable (n.Closed S) :=
  inferInstanceAs (Decidable (∀ node ∈ n.nodes, node.Drives S → ∀ w ∈ node.inputs, w ∈ S))

/-- The index of a combinator among those that drive a wire of a set, if it does. -/
def keptIndex? (S : Set String) [DecidablePred (· ∈ S)] (n : Network) : Nat → Option Nat :=
  indexAmong? (fun node => decide (node.Drives S)) n.nodes

/-! ### A network that stands for another one -/

/-- The second network has a counterpart for each combinator of the first one that drives a wire of
the set, in the same order and with the same switch and latest output, and no others. What these
read is in the set, and there both networks carry the same. -/
structure PartOn (S : Set String) (index? : Nat → Option Nat) (n m : Network) : Prop where
  corresponds : n.Corresponds Node.Twin index? m
  kept : ∀ {i k}, index? i = some k → ∃ sides, n.wiring[i]? = some sides ∧ ∀ w ∈ sides.1, w ∈ S
  dropped : ∀ {i sides}, index? i = none → n.wiring[i]? = some sides → ∀ w ∈ sides.2, w ∉ S
  order : (List.range n.wiring.length).filterMap index? = List.range m.wiring.length
  agrees : ∀ w ∈ S, n.state.get? w = m.state.get? w

theorem length_wiring (n : Network) : n.wiring.length = n.nodes.length := List.length_map _

theorem getElem?_wiring (n : Network) (i : Nat) :
    n.wiring[i]? = n.nodes[i]?.map fun node => (node.inputs, node.outputs) := List.getElem?_map

theorem wiring_serveAll_relocate? (m : Network) (call : NetworkCall) :
    (m.serveAll (call.relocate? index?).toList).wiring = m.wiring := by
  cases call with
  | add | paint => rfl
  | step | finalize => exact (sameWires_serve rfl).2
  | setActive index | toggleActive index =>
    rw [NetworkCall.relocate?]
    cases index? index with
    | none => rfl
    | some k => exact (sameWires_serve rfl).2

/-- Only the signals change in a tick, and they change in the same way on the set. -/
theorem PartOn.step (h : n.PartOn S index? m) (hn : Reachable n) (hm : Reachable m) :
    n.step.PartOn S index? m.step := by
  have hreads : ∀ {i k a}, index? i = some k → n.nodes[i]? = some a →
      ∀ w ∈ a.inputs, n.state.get? w = m.state.get? w := by
    intro i k a hk ha w hw
    obtain ⟨sides, hsides, hclosed⟩ := h.kept hk
    rw [getElem?_wiring, ha] at hsides
    cases hsides
    exact h.agrees w (hclosed w hw)
  have htwins : n.step.Corresponds Node.Twin index? m.step :=
    ((h.corresponds.mono fun _ _ => Node.Twin.toCounterpart).step_same hn hreads).mono fun _ _ =>
      And.left
  have hwiring : n.step.wiring = n.wiring := (sameWires_step n).2
  have hwiring' : m.step.wiring = m.wiring := (sameWires_step m).2
  refine ⟨htwins, hwiring ▸ h.kept, hwiring ▸ h.dropped, by rw [hwiring, hwiring', h.order], ?_⟩
  intro w hw
  refine get?_state_step_congr hn hm ?_
  -- A combinator without a counterpart contributes nothing to the wire.
  rw [contributions_eq_of_counterparts m.step index?, ← length_wiring, hwiring,
    h.order, contributions_eq_range, ← length_wiring, hwiring']
  intro i _
  cases hi : index? i with
  | some k => exact htwins.contribution?_eq hi w
  | none =>
    rw [Option.bind_none, Option.bind_eq_none_iff]
    intro node hnode
    refine if_neg fun hdrives => ?_
    have hsides := n.step.getElem?_wiring i
    rw [hnode, hwiring] at hsides
    exact h.dropped hi hsides w hdrives hw

/-- Colors and the layout do not matter. -/
theorem PartOn.recolored (h : n.PartOn S index? m) {coloring : ColorClasses}
    {layout : Option Layout} : { n with coloring, layout }.PartOn S index? m :=
  ⟨⟨h.corresponds.injective, h.corresponds.related⟩, h.kept, h.dropped, h.order, h.agrees⟩

/-- A combinator that drives no wire of the set may be added. -/
theorem PartOn.append (h : n.PartOn S index? m) {node : Node} (hnode : ¬node.Drives S)
    {coloring : ColorClasses} {layout : Option Layout} :
    { n with nodes := n.nodes ++ [node], coloring, layout }.PartOn S index? m := by
  have hwiring : { n with nodes := n.nodes ++ [node], coloring, layout }.wiring =
      n.wiring ++ [(node.inputs, node.outputs)] := List.map_append
  have hlt : ∀ {i k}, index? i = some k → i < n.wiring.length := by
    intro i k hk
    obtain ⟨sides, hsides, -⟩ := h.kept hk
    exact (List.getElem?_eq_some_iff.mp hsides).1
  have hnew : index? n.wiring.length = none :=
    Option.eq_none_iff_forall_ne_some.mpr fun k hk => Nat.lt_irrefl _ (hlt hk)
  constructor
  · refine ⟨h.corresponds.injective, fun {i k} hk => ?_⟩
    rw [List.getElem?_append_left (n.length_wiring ▸ hlt hk)]
    exact h.corresponds.related hk
  · intro i k hk
    rw [hwiring, List.getElem?_append_left (hlt hk)]
    exact h.kept hk
  · intro i sides hi hsides w hw hwS
    rw [hwiring] at hsides
    obtain hlen | hlen := Nat.lt_or_ge i n.wiring.length
    · rw [List.getElem?_append_left hlen] at hsides
      exact h.dropped hi hsides w hw hwS
    · rw [List.getElem?_append_right hlen] at hsides
      cases List.mem_singleton.mp (List.mem_of_getElem? hsides)
      exact hnode ⟨w, hw, hwS⟩
  · rw [hwiring, List.length_append, List.length_singleton, List.range_succ, List.filterMap_append,
      h.order, List.filterMap_cons_none hnew, List.filterMap_nil, List.append_nil]
  · exact h.agrees

/-- Whatever is requested, the networks carry the same on the set, as long as it gets no other
drivers. -/
theorem PartOn.serve (h : n.PartOn S index? m) (hn : Reachable n) (hm : Reachable m)
    {call : NetworkCall} (hcall : call.Spares S) :
    (n.serve call).2.PartOn S index? (m.serveAll (call.relocate? index?).toList) := by
  have hother : call.isDemand = false → call ≠ .step →
      (n.serve call).2.PartOn S index? (m.serveAll (call.relocate? index?).toList) := by
    intro hdemand hstep
    obtain ⟨hserved, hstate, hstate'⟩ :=
      h.corresponds.serve (fun hf _ _ hab => hab.mapCombinator hf) hdemand hstep
    have hwiring : (n.serve call).2.wiring = n.wiring := (sameWires_serve hdemand).2
    refine ⟨hserved, hwiring ▸ h.kept, hwiring ▸ h.dropped, ?_, ?_⟩
    · rw [hwiring, wiring_serveAll_relocate?, h.order]
    · rw [hstate, hstate']
      exact h.agrees
  cases call with
  | add c inputs outputs span =>
    rw [Network.serve, NetworkCall.relocate?, Option.toList_none, serveAll_nil]
    obtain ⟨_, -, heq⟩ | ⟨-, heq⟩ := n.add_cases c inputs outputs span
    · rw [heq]
      exact h.recolored
    · rw [heq]
      refine h.append ?_
      rintro ⟨w, hw, hwS⟩
      exact hcall w hw hwS
  | paint wire color span =>
    rw [Network.serve, NetworkCall.relocate?, Option.toList_none, serveAll_nil]
    obtain ⟨_, -, heq⟩ | ⟨-, heq⟩ := n.paint_cases wire color span
    · rw [heq]
      exact h.recolored
    · rw [heq]
      exact h.recolored
  | step => exact h.step hn hm
  | setActive | toggleActive | finalize => exact hother rfl (by simp)

theorem PartOn.serveAll (h : n.PartOn S index? m) (hn : Reachable n) (hm : Reachable m)
    {calls : List NetworkCall} (hcalls : ∀ call ∈ calls, call.Spares S) :
    (n.serveAll calls).PartOn S index?
      (m.serveAll (calls.filterMap (NetworkCall.relocate? index?))) := by
  induction calls generalizing n m with
  | nil => exact h
  | cons call calls ih =>
    obtain ⟨hcall, hrest⟩ := List.forall_mem_cons.mp hcalls
    rw [serveAll_cons, serveAll_filterMap_cons]
    exact ih (h.serve hn hm hcall) (hn.serve call) (hm.serveAll _) hrest

/-! ### The network without the others -/

variable [DecidablePred (· ∈ S)]

/-- Before the first tick, the drivers of a closed set make up a network that stands for the whole
on the set. -/
theorem Closed.partOn (h : n.Closed S) (hn : Reachable n) (hm : Reachable m) (hn0 : n.tick = 0)
    (hm0 : m.tick = 0)
    (hpart : List.Forall₂ Node.Counterpart (n.nodes.filter fun node => node.Drives S) m.nodes) :
    n.PartOn S (n.keptIndex? S) m where
  corresponds := by
    have hcounterparts : n.Corresponds Node.Counterpart (n.keptIndex? S) m := by
      refine ⟨indexAmong?_injective, fun hk => ?_⟩
      rw [← getElem?_of_indexAmong? hk]
      exact rel_getElem?_of_forall₂ hpart _
    refine hcounterparts.mono fun ha hb hab => ⟨hab, ?_⟩
    rw [hn.lastOutput_eq_empty hn0 ha, hm.lastOutput_eq_empty hm0 hb]
  kept {i k} hk := by
    obtain ⟨node, hnode, hdrives, -⟩ := indexAmong?_eq_some_iff.mp hk
    refine ⟨(node.inputs, node.outputs), by rw [getElem?_wiring, hnode]; rfl, ?_⟩
    exact h node (List.mem_of_getElem? hnode) (of_decide_eq_true hdrives)
  dropped {i sides} hi hsides w hw hwS := by
    rw [getElem?_wiring] at hsides
    obtain ⟨node, hnode, rfl⟩ := Option.map_eq_some_iff.mp hsides
    exact of_indexAmong?_eq_none hi hnode (decide_eq_true ⟨w, hw, hwS⟩)
  order := by
    rw [length_wiring, length_wiring, ← hpart.length_eq]
    exact filterMap_range_indexAmong? _ _
  agrees w _ := by rw [hn.state_eq_empty hn0, hm.state_eq_empty hm0]

/-- Let the drivers of a set of wires read only from the set, and let a second network have the same
drivers in the same order with the same switches, and nothing else. After any requests that add no
driver to the set, where the second network is left out whenever others are switched, both carry the
same on the set, and the drivers wrote the same and have the same switches. So what is carried on
the set is decided by its drivers and by how these are switched, whatever else there is. -/
theorem Closed.sameOnWires (h : n.Closed S) (hn : Reachable n) (hm : Reachable m)
    (hn0 : n.tick = 0) (hm0 : m.tick = 0)
    (hpart : List.Forall₂ Node.Counterpart (n.nodes.filter fun node => node.Drives S) m.nodes)
    {calls : List NetworkCall} (hcalls : ∀ call ∈ calls, call.Spares S) :
    (∀ w ∈ S, (n.serveAll calls).state.get? w =
      (m.serveAll (calls.filterMap (NetworkCall.relocate? (n.keptIndex? S)))).state.get? w) ∧
    (∀ i k, n.keptIndex? S i = some k → Option.Rel
      (fun a b => a.lastOutput = b.lastOutput ∧ a.combinator.active? = b.combinator.active?)
      (n.serveAll calls).nodes[i]?
      (m.serveAll (calls.filterMap (NetworkCall.relocate? (n.keptIndex? S)))).nodes[k]?) ∧
    ∀ (n' : Network) (calls' : List NetworkCall), n'.Closed S → Reachable n' → n'.tick = 0 →
      List.Forall₂ Node.Counterpart (n'.nodes.filter fun node => node.Drives S) m.nodes →
      (∀ call ∈ calls', call.Spares S) →
      calls'.filterMap (NetworkCall.relocate? (n'.keptIndex? S)) =
        calls.filterMap (NetworkCall.relocate? (n.keptIndex? S)) →
      ∀ w ∈ S, (n.serveAll calls).state.get? w = (n'.serveAll calls').state.get? w := by
  have hrun := (h.partOn hn hm hn0 hm0 hpart).serveAll hn hm hcalls
  refine ⟨hrun.agrees, fun i k hk => ?_, ?_⟩
  · have hsame : (n.serveAll calls).Corresponds
        (fun a b => a.lastOutput = b.lastOutput ∧ a.combinator.active? = b.combinator.active?)
        (n.keptIndex? S)
        (m.serveAll (calls.filterMap (NetworkCall.relocate? (n.keptIndex? S)))) :=
      hrun.corresponds.mono fun _ _ hab => ⟨hab.lastOutput, hab.active?_eq⟩
    exact hsame.related hk
  · intro n' calls' h' hn' hn0' hpart' hcalls' hsame w hw
    have hrun' := (h'.partOn hn' hm hn0' hm0 hpart').serveAll hn' hm hcalls'
    rw [hrun.agrees w hw, hrun'.agrees w hw, hsame]

/-- A loop on the wires A and B with two buttons, a toggle next to it and a reader of both. -/
def watchedLoop : List Statement :=
  [⟨.constant .toggle [("x", 5)] ["D"], .nowhere⟩,
    ⟨.constant .toggle [("x", 3)] ["A"], .nowhere⟩,
    ⟨.binary ["A", "D"] ⟨.signal "x", .mul, .literal 2, "x", false, .nowhere⟩ ["E"], .nowhere⟩,
    ⟨.binary ["A", "B"] ⟨.signal "x", .add, .literal 1, "x", false, .nowhere⟩ ["A", "B"], .nowhere⟩,
    ⟨.constant .pulse [("x", 7)] ["B"], .nowhere⟩]

/-- The loop and its buttons alone. -/
def unwatchedLoop : List Statement :=
  [⟨.constant .toggle [("x", 3)] ["A"], .nowhere⟩,
    ⟨.binary ["A", "B"] ⟨.signal "x", .add, .literal 1, "x", false, .nowhere⟩ ["A", "B"], .nowhere⟩,
    ⟨.constant .pulse [("x", 7)] ["B"], .nowhere⟩]

def loopWires : Set String := {w | w = "A" ∨ w = "B"}

instance : DecidablePred (· ∈ loopWires) := fun w => inferInstanceAs (Decidable (w = "A" ∨ w = "B"))

/-- Both buttons of the loop are switched, the toggle next to it, too, and one more reader is added
in between. The loop itself cannot be switched. -/
def watchedCalls : List NetworkCall :=
  [.toggleActive 0, .toggleActive 1, .step, .setActive 4 true,
    .add (.display "x" 0) ["A"] [] .nowhere, .step, .setActive 3 true, .step]

/-- What of these requests concerns the loop. -/
def loopCalls : List NetworkCall :=
  [.toggleActive 1, .step, .setActive 4 true, .step, .setActive 3 true, .step]

theorem sameOnWires_watchedLoop : ∃ n m, ofStatements watchedLoop {} = .ok n ∧
    ofStatements unwatchedLoop {} = .ok m ∧ n.Closed loopWires ∧
    List.Forall₂ Node.Counterpart (n.nodes.filter fun node => node.Drives loopWires) m.nodes ∧
    (∀ w ∈ loopWires, (n.serveAll watchedCalls).state.get? w =
      (m.serveAll [.toggleActive 0, .step, .setActive 2 true, .step, .setActive 1 true,
        .step]).state.get? w) ∧
    (∀ w ∈ loopWires,
      (n.serveAll watchedCalls).state.get? w = (n.serveAll loopCalls).state.get? w) ∧
    ((n.serveAll watchedCalls).wire "B").get "x" = 23 := by
  have hvalues : ((ofStatements watchedLoop {}).bind fun n =>
      (ofStatements unwatchedLoop {}).map fun m =>
        (decide (n.tick = 0 ∧ m.tick = 0 ∧ n.Closed loopWires ∧ List.Forall₂ Node.Counterpart
            (n.nodes.filter fun node => node.Drives loopWires) m.nodes),
          [0, 1, 3, 4].map (n.keptIndex? loopWires),
          ((n.serveAll watchedCalls).wire "B").get "x")) =
        .ok (true, [none, some 0, some 1, some 2], 23) := by rfl
  obtain ⟨n, hn, hreachable, hvalues⟩ := exists_of_bind_ofStatements hvalues
  obtain ⟨m, hm, hreachable', hvalues⟩ := exists_of_map_ofStatements hvalues
  simp only [Prod.mk.injEq, decide_eq_true_eq, List.map_cons, List.map_nil, List.cons.injEq,
    and_true] at hvalues
  obtain ⟨⟨hn0, hm0, hclosed, hpart⟩, ⟨hzero, hone, hthree, hfour⟩, hvalue⟩ := hvalues
  have hcalls : ∀ call ∈ watchedCalls, call.Spares loopWires := by
    simp [watchedCalls, NetworkCall.Spares]
  have hloopCalls : ∀ call ∈ loopCalls, call.Spares loopWires := by
    simp [loopCalls, NetworkCall.Spares]
  have hpassed : watchedCalls.filterMap (NetworkCall.relocate? (n.keptIndex? loopWires)) =
      [.toggleActive 0, .step, .setActive 2 true, .step, .setActive 1 true, .step] := by
    simp [watchedCalls, List.filterMap_cons, NetworkCall.relocate?, hzero, hone, hthree, hfour]
  have hloopPassed : loopCalls.filterMap (NetworkCall.relocate? (n.keptIndex? loopWires)) =
      [.toggleActive 0, .step, .setActive 2 true, .step, .setActive 1 true, .step] := by
    simp [loopCalls, NetworkCall.relocate?, hone, hthree, hfour]
  obtain ⟨hpartSame, -, hsame⟩ :=
    hclosed.sameOnWires hreachable hreachable' hn0 hm0 hpart hcalls
  refine ⟨n, m, hn, hm, hclosed, hpart, hpassed ▸ hpartSame, ?_, hvalue⟩
  exact hsame n loopCalls hclosed hreachable hn0 hpart hloopCalls (hloopPassed.trans hpassed.symm)

end Network

end CombinatorNet
