import CombinatorNet.Proofs.Network.Counterparts
import Mathlib.Logic.Equiv.Basic

/-!
# The order of combinators

The combinators of a network may stand in any order, and so may the wires of each side. What
combinators make of the wires in a tick is the same in any case. What the wires carry afterwards is
the same, too, where values add up to the same in any order.

## Main definitions

* `Network.Reordered` — the same combinators in another order
* `Network.SumsOrderFree`, `Network.RunsOrderFree` — on no wire the order of the sums matters, after
  the latest tick or after each tick of a run; both can be decided

## Main results

* `Network.Reordered.perm_contributions` — the drivers of a wire write the same in another order
* `Network.Reordered.state_step` — a tick from the same signals leads to the same signals
* `Network.Reordered.state_serveAll` — so does a run
* `Network.Reordered.sameSimulation` — what the order of the combinators has to do with a simulation
-/

namespace CombinatorNet.Network

variable {n m : Network} {place : Equiv.Perm Nat}

/-- The same combinators in another order, and with the wires of each side in any order. The
combinator with index `i` is found at `place i`. -/
def Reordered (place : Equiv.Perm Nat) (n m : Network) : Prop :=
  ∀ i, Option.Rel Node.Counterpart n.nodes[i]? m.nodes[place i]?

theorem reordered_iff_corresponds :
    n.Reordered place m ↔ n.Corresponds Node.Counterpart (fun i => some (place i)) m := by
  constructor
  · intro h
    refine ⟨fun hi hj => place.injective ((Option.some.inj hi).trans (Option.some.inj hj).symm), ?_⟩
    intro i k hk
    exact Option.some.inj hk ▸ h i
  · exact fun h i => h.related rfl

/-- The new places of the combinators make up the indices of the other network. -/
theorem Reordered.perm_range (h : n.Reordered place m) :
    ((List.range n.nodes.length).map place).Perm (List.range m.nodes.length) := by
  refine (List.perm_ext_iff_of_nodup (List.nodup_range.map place.injective) List.nodup_range).mpr ?_
  intro k
  have hk := h (place.symm k)
  rw [Equiv.apply_symm_apply] at hk
  have hlt : place.symm k < n.nodes.length ↔ k < m.nodes.length := by
    rw [← not_iff_not, Nat.not_lt, Nat.not_lt, ← List.getElem?_eq_none_iff,
      ← List.getElem?_eq_none_iff]
    generalize n.nodes[place.symm k]? = x, m.nodes[k]? = y at hk
    cases hk <;> simp
  rw [List.mem_map, List.mem_range, ← hlt]
  simp only [List.mem_range]
  constructor
  · rintro ⟨i, hi, rfl⟩
    rwa [Equiv.symm_apply_apply]
  · exact fun hi => ⟨place.symm k, hi, place.apply_symm_apply k⟩

/-- Whatever their order, combinators that find the same signals on the wires write the same. -/
theorem Reordered.step_same (h : n.Reordered place m) (hn : Reachable n)
    (hstate : n.state = m.state) :
    n.step.Corresponds (fun a b => a.Twin b ∧ a.combinator = b.combinator)
      (fun i => some (place i)) m.step :=
  (reordered_iff_corresponds.mp h).step_same hn fun _ _ w _ => by rw [hstate]

theorem Reordered.step (h : n.Reordered place m) : n.step.Reordered place m.step :=
  reordered_iff_corresponds.mpr
    ((reordered_iff_corresponds.mp h).step fun _ _ _ hab => hab.step _ _)

/-- The drivers of a wire write the same in another order. -/
theorem Reordered.perm_contributions (h : n.Reordered place m) (hn : Reachable n)
    (hstate : n.state = m.state) (w : String) :
    (n.step.contributions w).Perm (m.step.contributions w) := by
  have htwins : n.step.Corresponds Node.Twin (fun i => some (place i)) m.step :=
    (h.step_same hn hstate).mono fun _ _ => And.left
  rw [contributions_eq_of_counterparts m.step (fun i => some (place i))
    fun i _ => htwins.contribution?_eq rfl w, List.filterMap_eq_map', contributions_eq_range]
  exact h.step.perm_range.filterMap _

/-! ### Sums in any order -/

/-- On each wire, the values that its drivers wrote add up to the same in any order: they are all of
one sign, or too small to saturate. -/
def SumsOrderFree (n : Network) : Prop :=
  ∀ w name, OrderFree ((n.drivers w).map fun node => node.lastOutput.get name)

/-- Only wires that are driven, and signals that their drivers wrote, can make a difference. -/
theorem sumsOrderFree_iff : n.SumsOrderFree ↔ ∀ node ∈ n.nodes, ∀ w ∈ node.outputs,
    ∀ name ∈ node.lastOutput.values.names,
      OrderFree ((n.drivers w).map fun node => node.lastOutput.get name) := by
  refine ⟨fun h _ _ w _ name _ => h w name, fun h w name => ?_⟩
  by_cases hzero : ∀ node ∈ n.drivers w, node.lastOutput.get name = 0
  · exact .inl (List.forall_mem_map.mpr fun node hnode => (hzero node hnode).ge)
  · push Not at hzero
    obtain ⟨node, hdriver, hget⟩ := hzero
    obtain ⟨hnode, hw⟩ := mem_drivers.mp hdriver
    refine h node hnode w hw name (NameMap.mem_names_iff.mpr ?_)
    by_contra hnone
    exact hget (by rw [SignalSet.get, Option.not_isSome_iff_eq_none.mp hnone]; rfl)

instance (n : Network) : Decidable n.SumsOrderFree := decidable_of_iff _ sumsOrderFree_iff.symm

/-- After each tick of a run, the sums on the wires are free of the order. -/
def RunsOrderFree (n : Network) : List NetworkCall → Prop
  | [] => True
  | .step :: calls => n.step.SumsOrderFree ∧ n.step.RunsOrderFree calls
  | call :: calls => (n.serve call).2.RunsOrderFree calls

theorem runsOrderFree_cons {call : NetworkCall} (hcall : call ≠ .step) (calls : List NetworkCall) :
    n.RunsOrderFree (call :: calls) ↔ (n.serve call).2.RunsOrderFree calls := by
  cases call with
  | step => exact absurd rfl hcall
  | _ => exact Iff.rfl

instance decidableRunsOrderFree (n : Network) :
    (calls : List NetworkCall) → Decidable (n.RunsOrderFree calls)
  | [] => inferInstanceAs (Decidable True)
  | .step :: calls =>
    have := decidableRunsOrderFree n.step calls
    inferInstanceAs (Decidable (_ ∧ _))
  | .add .. :: calls | .paint .. :: calls | .setActive .. :: calls | .toggleActive .. :: calls
  | .finalize :: calls => decidableRunsOrderFree _ calls

/-- A tick from the same signals leads to the same signals, if the order of the sums is free. -/
theorem Reordered.state_step (h : n.Reordered place m) (hn : Reachable n) (hm : Reachable m)
    (hstate : n.state = m.state) (hfree : n.step.SumsOrderFree) : n.step.state = m.step.state := by
  refine NameMap.ext_get? fun w => ?_
  have hperm := h.perm_contributions hn hstate w
  have hsum : SignalSet.mergeAll (n.step.contributions w) =
      .mergeAll (m.step.contributions w) := by
    refine SignalSet.ext_get (SignalSet.canonical_mergeAll _) (SignalSet.canonical_mergeAll _)
      fun name => ?_
    have hvalues : OrderFree ((n.step.contributions w).map (·.get name)) :=
      n.step.map_get_drivers w name ▸ hfree w name
    rw [SignalSet.get_mergeAll, SignalSet.get_mergeAll]
    exact hvalues.saturatedSum_perm (hperm.map _)
  have hnone : n.step.contributions w = [] ↔ m.step.contributions w = [] := by
    rw [← List.length_eq_zero_iff, hperm.length_eq, List.length_eq_zero_iff]
  rw [get?_state_step_eq hn, get?_state_step_eq hm, hsum]
  simp only [hnone]

/-- A run from the same signals leads to the same signals, if the order of the sums is free in each
of its ticks. -/
theorem Reordered.state_serveAll (h : n.Reordered place m) (hn : Reachable n) (hm : Reachable m)
    (hstate : n.state = m.state) {calls : List NetworkCall}
    (hcalls : ∀ call ∈ calls, call.isDemand = false) (hfree : n.RunsOrderFree calls) :
    (n.serveAll calls).state =
      (m.serveAll (calls.filterMap (NetworkCall.relocate? fun i => some (place i)))).state := by
  induction calls generalizing n m with
  | nil => exact hstate
  | cons call calls ih =>
    obtain ⟨hcall, hrest⟩ := List.forall_mem_cons.mp hcalls
    rw [serveAll_cons, serveAll_filterMap_cons]
    by_cases hstep : call = .step
    · subst hstep
      exact ih h.step (hn.serve .step) (hm.serve .step) (h.state_step hn hm hstate hfree.1) hrest
        hfree.2
    · obtain ⟨hserved, hn', hm'⟩ := (reordered_iff_corresponds.mp h).serve
        (fun hf _ _ hab => hab.mapCombinator hf) hcall hstep
      refine ih (reordered_iff_corresponds.mpr hserved) (hn.serve call) (hm.serveAll _) ?_ hrest
        ((runsOrderFree_cons hstep calls).mp hfree)
      rw [hn', hm', hstate]

/-- Let two networks have the same combinators in another order, with the wires of some sides
swapped, and the same buttons on. Where they carry the same signals, all combinators write and show
the same in the next tick, and their switches are the same afterwards. And if no tick was run yet,
they carry the same signals after any run of ticks, and of switches that go along with each other,
provided that in each tick the values that the drivers of a wire write for a signal are all of one
sign, or their magnitudes are no more than the bound in total. -/
theorem Reordered.sameSimulation (h : n.Reordered place m) (hn : Reachable n) (hm : Reachable m) :
    (n.state = m.state → ∀ i, Option.Rel
      (fun a b => a.combinator = b.combinator ∧ a.lastOutput = b.lastOutput)
      n.step.nodes[i]? m.step.nodes[place i]?) ∧
    (n.tick = 0 → m.tick = 0 → ∀ calls : List NetworkCall,
      (∀ call ∈ calls, call.isDemand = false) → n.RunsOrderFree calls →
      (n.serveAll calls).state =
        (m.serveAll (calls.filterMap (NetworkCall.relocate? fun i => some (place i)))).state) := by
  refine ⟨fun hstate i => ?_, fun hn0 hm0 calls hcalls hfree => ?_⟩
  · have hsame : n.step.Corresponds
        (fun a b => a.combinator = b.combinator ∧ a.lastOutput = b.lastOutput)
        (fun i => some (place i)) m.step :=
      (h.step_same hn hstate).mono fun _ _ hab => ⟨hab.2, hab.1.lastOutput⟩
    exact hsame.related rfl
  · refine h.state_serveAll hn hm ?_ hcalls hfree
    rw [hn.state_eq_empty hn0, hm.state_eq_empty hm0]

/-- A toggle, and two loops that add up what it writes. -/
def toggledLoops : List Statement :=
  [⟨.constant .toggle [("x", 3)] ["B"], .nowhere⟩,
    ⟨.binary ["A", "B"] ⟨.signal "x", .add, .literal 1, "x", false, .nowhere⟩ ["A", "C"], .nowhere⟩,
    ⟨.binary ["C"] ⟨.signal "x", .mul, .literal 2, "x", false, .nowhere⟩ ["A"], .nowhere⟩]

/-- The same from the last to the first, with the wires of two sides swapped. -/
def toggledLoopsReversed : List Statement :=
  [⟨.binary ["C"] ⟨.signal "x", .mul, .literal 2, "x", false, .nowhere⟩ ["A"], .nowhere⟩,
    ⟨.binary ["B", "A"] ⟨.signal "x", .add, .literal 1, "x", false, .nowhere⟩ ["C", "A"], .nowhere⟩,
    ⟨.constant .toggle [("x", 3)] ["B"], .nowhere⟩]

/-- The toggle, which is the combinator with a given index, is on for two ticks. -/
def toggledTwice (index : Nat) : List NetworkCall :=
  [.toggleActive index, .step, .step, .toggleActive index, .step, .step]

theorem sameSimulation_toggledLoops : ∃ n m, ofStatements toggledLoops {} = .ok n ∧
    ofStatements toggledLoopsReversed {} = .ok m ∧ n.Reordered (Equiv.swap 0 2) m ∧
    n.RunsOrderFree (toggledTwice 0) ∧
    (∀ i, Option.Rel (fun a b => a.combinator = b.combinator ∧ a.lastOutput = b.lastOutput)
      n.step.nodes[i]? m.step.nodes[Equiv.swap 0 2 i]?) ∧
    (n.serveAll (toggledTwice 0)).state = (m.serveAll (toggledTwice 2)).state ∧
    ((n.serveAll (toggledTwice 0)).wire "A").get "x" = 44 := by
  have hvalues : ((ofStatements toggledLoops {}).bind fun n =>
      (ofStatements toggledLoopsReversed {}).map fun m =>
        (decide (m.nodes.length = 3 ∧ List.Forall₂ Node.Counterpart n.nodes m.nodes.reverse),
          decide (n.tick = 0 ∧ m.tick = 0 ∧ n.state = m.state ∧
            n.RunsOrderFree (toggledTwice 0)),
          ((n.serveAll (toggledTwice 0)).wire "A").get "x")) = .ok (true, true, 44) := by rfl
  obtain ⟨n, hn, hreachable, hvalues⟩ := exists_of_bind_ofStatements hvalues
  obtain ⟨m, hm, hreachable', hvalues⟩ := exists_of_map_ofStatements hvalues
  simp only [Prod.mk.injEq, decide_eq_true_eq] at hvalues
  obtain ⟨⟨hlen, hcounterparts⟩, ⟨hn0, hm0, hstate, hfree⟩, hvalue⟩ := hvalues
  have hplace : ∀ i, m.nodes.reverse[i]? = m.nodes[Equiv.swap 0 2 i]? := by
    obtain ⟨a, b, c, habc⟩ := List.length_eq_three.mp hlen
    rw [habc]
    rintro (_ | _ | _ | i)
    · rfl
    · rfl
    · rfl
    · rw [Equiv.swap_apply_of_ne_of_ne (by omega) (by omega)]; rfl
  have hreordered : n.Reordered (Equiv.swap 0 2) m := fun i =>
    hplace i ▸ rel_getElem?_of_forall₂ hcounterparts i
  obtain ⟨hsame, hruns⟩ := hreordered.sameSimulation hreachable hreachable'
  refine ⟨n, m, hn, hm, hreordered, hfree, hsame hstate, hruns hn0 hm0 _ ?_ hfree, hvalue⟩
  simp [toggledTwice, NetworkCall.isDemand]

end CombinatorNet.Network
