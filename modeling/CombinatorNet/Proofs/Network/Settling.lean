import CombinatorNet.Proofs.Network.Simulation

/-!
# Networks that settle

A combinator answers to its input wires one tick later. Where no way along the combinators leads
back to a wire, each wire has a rank above the ranks of the wires that it depends on. What was
carried at the start is then forgotten rank by rank, one in each tick, and each wire comes to rest.
The only other thing that changes by itself is a pulse that is on, and it is off after the first
tick.

## Main definitions

* `Network.Ranked` — a rank for wires that grows from the inputs to the outputs of each combinator
* `Network.PulsesOff` — no pulse is on

## Main results

* `Network.get?_state_step_step` — a wire keeps what it carries if its drivers read what they read
  before
* `Network.PulsesOff.get?_state_run_succ` — with the pulses off, a wire is at rest once there were
  more ticks than its rank
* `Network.Ranked.state_run_settles` — when the wires of a network settle, and when the network does
-/

namespace CombinatorNet

/-- A combinator writes the same from the same input in the next tick, unless it is a pulse that is
on. -/
theorem Combinator.output_next {c : Combinator} (h : ∀ values, c ≠ .pulse values true)
    (before input : SignalSet) : (c.next before).output input = c.output input := by
  cases c with
  | pulse values active =>
    cases active with
    | false => rfl
    | true => exact absurd rfl (h values)
  | _ => rfl

theorem Combinator.next_ne_pulse (c : Combinator) (input values : SignalSet) :
    c.next input ≠ .pulse values true := by
  cases c <;> exact nofun

namespace Network

variable {n : Network} {rank : String → Nat} {w : String}

/-- The rank of each wire on the output side of a combinator is above those on its input side. -/
def Ranked (rank : String → Nat) (n : Network) : Prop :=
  ∀ node ∈ n.nodes, ∀ u ∈ node.inputs, ∀ w ∈ node.outputs, rank u < rank w

/-- No pulse is on. -/
def PulsesOff (n : Network) : Prop :=
  ∀ node ∈ n.nodes, ∀ values, node.combinator ≠ .pulse values true

theorem pulsesOff_step (n : Network) : n.step.PulsesOff := by
  intro node hnode values
  obtain ⟨before, -, rfl⟩ := List.mem_map.mp hnode
  exact before.combinator.next_ne_pulse _ values

theorem Ranked.step (h : n.Ranked rank) : n.step.Ranked rank := by
  intro node hnode
  obtain ⟨before, hbefore, rfl⟩ := List.mem_map.mp hnode
  exact h before hbefore

theorem run_succ_eq_step (n : Network) (ticks : Nat) : n.run (ticks + 1) = (n.run ticks).step :=
  n.run_add ticks 1

theorem Ranked.run (h : n.Ranked rank) (ticks : Nat) : (n.run ticks).Ranked rank := by
  induction ticks with
  | zero => exact h
  | succ ticks ih => exact run_succ_eq_step n ticks ▸ ih.step

theorem PulsesOff.run (h : n.PulsesOff) (ticks : Nat) : (n.run ticks).PulsesOff := by
  cases ticks with
  | zero => exact h
  | succ ticks => exact run_succ_eq_step n ticks ▸ pulsesOff_step _

/-- A wire keeps what it carries from one tick to the next if its drivers read what they read in the
tick before. -/
theorem get?_state_step_step (h : Reachable n) (hoff : n.PulsesOff)
    (hinputs : ∀ node ∈ n.nodes, w ∈ node.outputs → ∀ u ∈ node.inputs,
      n.step.state.get? u = n.state.get? u) :
    n.step.step.state.get? w = n.step.state.get? w := by
  refine get?_state_step_congr (h.serve .step) h ?_
  rw [contributions_step, contributions_step, drivers, nodes_step, List.filter_map, List.map_map]
  refine List.map_congr_left fun node hnode => ?_
  obtain ⟨hmem, hw⟩ := mem_drivers.mp hnode
  have hinput : node.input n.step.state = node.input n.state :=
    Node.input_congr (hinputs node hmem hw)
  calc (node.step n.state).combinator.output ((node.step n.state).input n.step.state)
      = (node.combinator.next (node.input n.state)).output (node.input n.step.state) := rfl
    _ = node.combinator.output (node.input n.step.state) :=
        Combinator.output_next (hoff node hmem) _ _
    _ = node.combinator.output (node.input n.state) := by rw [hinput]

/-- With no pulse on, a wire is at rest once there were more ticks than its rank. -/
theorem PulsesOff.get?_state_run_succ (hoff : n.PulsesOff) (h : Reachable n) (hrank : n.Ranked rank)
    {ticks : Nat} (hw : rank w < ticks) :
    (n.run (ticks + 1)).state.get? w = (n.run ticks).state.get? w := by
  -- By induction on the ticks: the wires that the drivers read are of a lower rank.
  induction ticks generalizing w with
  | zero => exact absurd hw (Nat.not_lt_zero _)
  | succ ticks ih =>
    rw [run_succ_eq_step, run_succ_eq_step]
    refine get?_state_step_step (h.run ticks) (hoff.run ticks) fun node hnode hout u hu => ?_
    have hlt : rank u < rank w := hrank.run ticks node hnode u hu w hout
    rw [← run_succ_eq_step]
    exact ih (by omega)

theorem PulsesOff.get?_state_run (hoff : n.PulsesOff) (h : Reachable n) (hrank : n.Ranked rank)
    {ticks : Nat} (hw : rank w + 1 ≤ ticks) :
    (n.run ticks).state.get? w = (n.run (rank w + 1)).state.get? w := by
  induction ticks, hw using Nat.le_induction with
  | base => rfl
  | succ ticks hle ih => exact (hoff.get?_state_run_succ h hrank hle).trans ih

/-- The ranks of wires that are not driven do not matter, so that a bound for the others will do. -/
theorem Ranked.min (h : n.Ranked rank) {bound : Nat}
    (hbound : ∀ node ∈ n.nodes, ∀ w ∈ node.outputs, rank w ≤ bound) :
    n.Ranked fun w => min (rank w) bound := by
  intro node hnode u hu w hw
  have hlt := h node hnode u hu w hw
  have hle := hbound node hnode w hw
  simp only
  omega

/-- With the pulses off, no wire changes any more once there were more ticks than the highest rank.
-/
theorem PulsesOff.state_run_succ (hoff : n.PulsesOff) (h : Reachable n) (hrank : n.Ranked rank)
    {bound : Nat} (hbound : ∀ node ∈ n.nodes, ∀ w ∈ node.outputs, rank w ≤ bound) {ticks : Nat}
    (hticks : bound < ticks) : (n.run (ticks + 1)).state = (n.run ticks).state :=
  NameMap.ext_get? fun _ => hoff.get?_state_run_succ h (hrank.min hbound)
    (Nat.lt_of_le_of_lt (Nat.min_le_right _ _) hticks)

/-- Where wires can be ranked and no button is switched any more, a wire carries the same for ever
from two ticks after its rank on, and already from one tick after it on if no pulse was on. So once
the ticks exceed the highest rank by two, further ticks leave all wires as they are. Ticks are
counted from any moment, in particular from the start. -/
theorem Ranked.state_run_settles (hrank : n.Ranked rank) (h : Reachable n) :
    (∀ w ticks, rank w + 2 ≤ ticks →
      (n.run ticks).state.get? w = (n.run (rank w + 2)).state.get? w) ∧
    (n.PulsesOff → ∀ w ticks, rank w + 1 ≤ ticks →
      (n.run ticks).state.get? w = (n.run (rank w + 1)).state.get? w) ∧
    ∀ bound ticks, (∀ node ∈ n.nodes, ∀ w ∈ node.outputs, rank w ≤ bound) → bound + 2 ≤ ticks →
      (n.run ticks).step.state = (n.run ticks).state := by
  -- After the first tick, the pulses are off.
  have hstep : Reachable n.step := h.serve .step
  refine ⟨fun w ticks hticks => ?_, fun hoff w ticks => hoff.get?_state_run h hrank, ?_⟩
  · obtain ⟨k, rfl⟩ : ∃ k, ticks = k + 1 := ⟨ticks - 1, by omega⟩
    exact (pulsesOff_step n).get?_state_run hstep hrank.step (Nat.le_of_succ_le_succ hticks)
  · intro bound ticks hbound hticks
    obtain ⟨k, rfl⟩ : ∃ k, ticks = k + 1 := ⟨ticks - 1, by omega⟩
    have hbound' : ∀ node ∈ n.step.nodes, ∀ w ∈ node.outputs, rank w ≤ bound :=
      List.forall_mem_map.mpr hbound
    rw [← run_succ_eq_step]
    exact (pulsesOff_step n).state_run_succ hstep hrank.step hbound' (by omega)

instance (rank : String → Nat) (n : Network) : Decidable (n.Ranked rank) :=
  inferInstanceAs (Decidable (∀ node ∈ n.nodes, ∀ u ∈ node.inputs, ∀ w ∈ node.outputs,
    rank u < rank w))

/-- A pulse on a wire, a copy of that wire, and the sum of both. -/
def delayedSum : List Statement :=
  [⟨.binary ["A", "B"] ⟨.signal "x", .add, .literal 1, "x", false, .nowhere⟩ ["C"], .nowhere⟩,
    ⟨.binary ["A"] ⟨.signal "x", .mul, .literal 1, "x", false, .nowhere⟩ ["B"], .nowhere⟩,
    ⟨.constant .pulse [("x", 7)] ["A"], .nowhere⟩]

/-- The rank of each wire of the sum. -/
def delayedSumRank (w : String) : Nat := if w = "C" then 2 else if w = "B" then 1 else 0

/-- With the pulse off, the sum is at rest one tick after its rank; with the pulse on, it is not. -/
theorem state_run_settles_delayedSum : ∃ n, ofStatements delayedSum {} = .ok n ∧
    n.Ranked delayedSumRank ∧ n.PulsesOff ∧
    (∀ ticks, 3 ≤ ticks → (n.run ticks).state.get? "C" = (n.run 3).state.get? "C") ∧
    ∃ m, m = (n.serve (.setActive 2 true)).2 ∧ m.Ranked delayedSumRank ∧
      ((m.run 2).wire "C").get "x" = 8 ∧ ((m.run 3).wire "C").get "x" = 8 ∧
      ((m.run 4).wire "C").get "x" = 1 ∧
      (∀ ticks, 4 ≤ ticks → (m.run ticks).state.get? "C" = (m.run 4).state.get? "C") ∧
      ∀ ticks, 4 ≤ ticks → (m.run ticks).step.state = (m.run ticks).state := by
  have hvalues : ((ofStatements delayedSum {}).map fun n =>
      let m := (n.serve (.setActive 2 true)).2
      (decide (n.Ranked delayedSumRank ∧ m.Ranked delayedSumRank),
        decide (∀ node ∈ n.nodes, node.combinator.active? ≠ some true),
        decide (∀ node ∈ m.nodes, ∀ w ∈ node.outputs, delayedSumRank w ≤ 2),
        [2, 3, 4].map fun ticks => ((m.run ticks).wire "C").get "x")) =
      .ok (true, true, true, [8, 8, 1]) := by rfl
  obtain ⟨n, hn, hreachable, hvalues⟩ := exists_of_map_ofStatements hvalues
  simp only [Prod.mk.injEq, decide_eq_true_eq, List.map_cons, List.map_nil, List.cons.injEq,
    and_true] at hvalues
  obtain ⟨⟨hrank, hrank'⟩, hinactive, hbound, htwo, hthree, hfour⟩ := hvalues
  have hoff : n.PulsesOff := fun node hnode values heq => hinactive node hnode (by rw [heq]; rfl)
  obtain ⟨-, hquiet, -⟩ := hrank.state_run_settles hreachable
  obtain ⟨hwire, -, hstate⟩ := hrank'.state_run_settles (hreachable.serve (.setActive 2 true))
  exact ⟨n, hn, hrank, hoff, hquiet hoff "C", _, rfl, hrank', htwo, hthree, hfour, hwire "C",
    fun ticks => hstate 2 ticks hbound⟩

end Network

end CombinatorNet
