import CombinatorNet.Proofs.Network.Nodes
import CombinatorNet.Proofs.Network.Simulation
import CombinatorNet.Proofs.Network.ValidWiring

/-!
# Signals stay within their bounds

A set lists its signals in the order of their names, each with a value other than 0 within the
bounds. The operations on sets keep it so, whatever values they are given, and combinators write
sets that these operations make. So the operands of a combinator may lie outside the bounds, and an
arithmetic operator may be used as a test, or a comparison as a value.

## Main definitions

* `SignalSet.Listed` — what the entries of a set are like
* `SignalSet.Constructible`, `Combinator.Constructible` — what can be made, and put into a network
* `Network.SignalsListed` — the sets on wires, in outputs and in combinators, and what displays show

## Main results

* `SignalSet.Constructible.canonical` — sets are canonical, however they are made
* `Combinator.Sound.next`, `Network.Sound.serve` — combinators and networks stay sound
* `Network.signalsListed_serveAll` — signals stay within their bounds, whatever requests are made
-/

namespace CombinatorNet

/-! ### Sets -/

namespace SignalSet

variable {s : SignalSet}

/-- The entries of a set have values other than 0 within the bounds, and ascending names. -/
structure Listed (s : SignalSet) : Prop where
  values : ∀ e ∈ s.toList, e.2 ≠ 0 ∧ -2147483647 ≤ e.2 ∧ e.2 ≤ 2147483647
  names : (s.toList.map Prod.fst).Pairwise (· < ·)

theorem Canonical.listed (h : s.Canonical) : s.Listed where
  values := fun ⟨name, v⟩ he => h name v (NameMap.mem_toList_iff.mp he)
  names := List.pairwise_map.mpr s.values.ascending

/-- The sets that the operations make, from any values. -/
inductive Constructible : SignalSet → Prop
  | empty : Constructible ∅
  | set {s : SignalSet} (h : Constructible s) (name : String) (v : Int) :
      Constructible (s.set name v)
  | merge {s t : SignalSet} (hs : Constructible s) (ht : Constructible t) :
      Constructible (s.merge t)
  | negated {s : SignalSet} (h : Constructible s) : Constructible s.negated
  | filterMap {s : SignalSet} (h : Constructible s) (f : Int → Option Int) :
      Constructible (s.filterMap f)
  | collect (pairs : List (String × Int)) : Constructible (.collect pairs)

theorem Constructible.canonical (h : s.Constructible) : s.Canonical := by
  induction h with
  | empty => exact canonical_empty
  | set _ name v ih => exact canonical_set ih name v
  | merge _ _ ihs _ => exact canonical_merge ihs _
  | negated _ ih => exact ih.negated
  | filterMap _ f _ => exact canonical_filterMap f _
  | collect pairs => exact canonical_collect pairs

end SignalSet

/-! ### Combinators -/

namespace Combinator

variable {c : Combinator} {input : SignalSet}

/-- The combinators that can be made: from any settings, also from those that no expression leads
to, and in any state that ticks lead to. -/
inductive Constructible : Combinator → Prop
  | constant {values : SignalSet} (h : values.Constructible) : Constructible (.constant values)
  | toggle {values : SignalSet} (h : values.Constructible) (active : Bool) :
      Constructible (.toggle values active)
  | pulse {values : SignalSet} (h : values.Constructible) (active : Bool) :
      Constructible (.pulse values active)
  | arithmetic (op : Operator) (left right : Value) (output : String) :
      Constructible (.arithmetic op left right output)
  | arithmeticSum (op : Operator) (right : Value) (output : String) :
      Constructible (.arithmeticSum op right output)
  | arithmeticEach (op : Operator) (right : Value) : Constructible (.arithmeticEach op right)
  | decider (op : Operator) (left : Condition) (right : Value) (target : Target) (asOne : Bool) :
      Constructible (.decider op left right target asOne)
  | deciderSum (op : Operator) (right : Value) (output : String) (asOne : Bool) :
      Constructible (.deciderSum op right output asOne)
  | deciderEach (op : Operator) (right : Value) (asOne : Bool) :
      Constructible (.deciderEach op right asOne)
  | display (signal : String) : Constructible (.ofSignal signal)
  | label (text : String) (level : Nat) : Constructible (.label text level)
  | next {c : Combinator} (h : Constructible c) {input : SignalSet} (hinput : input.Constructible) :
      Constructible (c.next input)

theorem constructible_ofValues (drive : Drive) (values : List (String × Int)) :
    (ofValues drive values).Constructible := by
  cases drive with
  | constant => exact .constant (.collect values)
  | toggle => exact .toggle (.collect values) false
  | pulse => exact .pulse (.collect values) false

theorem constructible_of_ofExpr {e : Expr} (h : ofExpr e = .ok c) : c.Constructible := by
  have harithmetic : ofArithmetic e = .ok c → c.Constructible := by
    intro h
    rw [ofArithmetic] at h
    split at h <;> cases h <;> constructor
  have hcomparison : ofComparison e = .ok c → c.Constructible := by
    intro h
    rw [ofComparison] at h
    split at h <;> cases h <;> constructor
  rw [ofExpr] at h
  split at h
  · split at h
    · cases h
    · split at h
      · exact hcomparison h
      · exact harithmetic h
  · split at h
    · exact hcomparison h
    · exact harithmetic h

/-- What a combinator has been given to write is canonical, and what it shows is a signal value. -/
structure Sound (c : Combinator) : Prop where
  stored : ∀ values, c.stored? = some values → values.Canonical
  shown : ∀ signal v, c.reading? = some (signal, v) → InRange v

theorem Sound.next (h : c.Sound) (hinput : input.Canonical) : (c.next input).Sound := by
  cases c with
  | display signal v =>
    refine ⟨nofun, fun signal' v' heq => ?_⟩
    cases heq
    exact SignalSet.inRange_get hinput signal
  | pulse values active => exact ⟨h.stored, nofun⟩
  | _ => exact h

theorem Sound.setActive (h : c.Sound) (active : Bool) : (c.setActive active).Sound := by
  cases c with
  | toggle | pulse => exact ⟨h.stored, nofun⟩
  | _ => exact h

theorem Constructible.sound (h : c.Constructible) : c.Sound := by
  induction h with
  | constant h | toggle h | pulse h =>
    refine ⟨fun values heq => ?_, nofun⟩
    cases heq
    exact h.canonical
  | display signal =>
    refine ⟨nofun, fun signal' v heq => ?_⟩
    cases heq
    decide
  | next _ hinput ih => exact ih.next hinput.canonical
  | _ => exact ⟨nofun, nofun⟩

end Combinator

/-! ### Networks -/

/-- The combinator of a node is sound, and what it wrote is canonical. -/
structure Node.Sound (node : Node) : Prop where
  combinator : node.combinator.Sound
  lastOutput : node.lastOutput.Canonical

theorem Node.Sound.step {node : Node} (h : node.Sound) (state : WireState) :
    (node.step state).Sound where
  combinator := h.combinator.next (node.canonical_input state)
  lastOutput := Combinator.canonical_output (node.canonical_input state) h.combinator.stored

/-- If the request is for a combinator, this is one that can be made. -/
def NetworkCall.Constructible : NetworkCall → Prop
  | add c _ _ _ => c.Constructible
  | _ => True

namespace Network

variable {n : Network}

/-- All nodes are sound. -/
def Sound (n : Network) : Prop := ∀ node ∈ n.nodes, node.Sound

/-- A request keeps the nodes sound, unless it brings a combinator that cannot be made. -/
theorem Sound.serve (h : n.Sound) {call : NetworkCall} (hcall : call.Constructible) :
    (n.serve call).2.Sound := by
  refine forall_mem_nodes_serve h ?_ (fun node hnode => (h node hnode).step n.state)
    fun node hnode active => ⟨(h node hnode).combinator.setActive active, (h node hnode).lastOutput⟩
  rintro c inputs outputs span rfl
  exact ⟨Combinator.Constructible.sound hcall, SignalSet.canonical_empty⟩

theorem Sound.serveAll (h : n.Sound) {calls : List NetworkCall}
    (hcalls : ∀ call ∈ calls, call.Constructible) : (n.serveAll calls).Sound := by
  induction calls generalizing n with
  | nil => exact h
  | cons call calls ih =>
    obtain ⟨hcall, hcalls⟩ := List.forall_mem_cons.mp hcalls
    exact ih (h.serve hcall) hcalls

/-- The combinators of statements can be made, and wrote nothing yet. -/
theorem sound_of_node? {s : Statement} {node : Node} (h : s.node? = some node) : node.Sound := by
  have hnew : ∀ {c : Combinator}, c.Constructible → ∀ inputs outputs span,
      (⟨c, inputs, outputs, span, ∅⟩ : Node).Sound :=
    fun hc _ _ _ => ⟨hc.sound, SignalSet.canonical_empty⟩
  rw [Statement.node?] at h
  split at h
  · next drive values outputs _ =>
    cases h
    exact hnew (Combinator.constructible_ofValues drive values) _ _ _
  · next inputs expr outputs _ =>
    obtain ⟨c, hc, rfl⟩ := Option.map_eq_some_iff.mp h
    have hmade := Combinator.ofExpr_eq_ok_of_toOption hc
    exact hnew (Combinator.constructible_of_ofExpr hmade) _ _ _
  · next inputs signal _ =>
    cases h
    exact hnew (.display signal) _ _ _
  · cases h
    exact hnew (.label _ _) _ _ _
  · cases h
  · cases h

theorem sound_of_ofStatements {statements : List Statement} {settings : LayoutSettings}
    (h : ofStatements statements settings = .ok n) : n.Sound := by
  intro node hnode
  obtain ⟨s, -, hsome⟩ := exists_node?_of_mem_nodes h hnode
  exact sound_of_node? hsome

theorem ComesFrom.sound {statements : List Statement} (h : n.ComesFrom statements) : n.Sound := by
  obtain ⟨settings, built, hbuilt, rfl | rfl⟩ := h.exists_built
  · exact sound_of_ofStatements hbuilt
  · exact (sound_of_ofStatements hbuilt).serve trivial

/-- All sets in a network are as sets should be, and its displays show signal values. -/
structure SignalsListed (n : Network) : Prop where
  wires : ∀ e ∈ n.state.toList, e.2.Listed
  lastOutputs : ∀ node ∈ n.nodes, node.lastOutput.Listed
  /-- The signals of constants, toggles and pulses. -/
  stored : ∀ node ∈ n.nodes, ∀ values, node.combinator.stored? = some values → values.Listed
  readings : ∀ e ∈ n.readings, -2147483647 ≤ e.2.2 ∧ e.2.2 ≤ 2147483647

theorem Reachable.signalsListed (h : Reachable n) (hsound : n.Sound) : n.SignalsListed where
  wires := fun ⟨w, s⟩ he => by
    have hwire := h.canonical_wire w
    rw [wire, NameMap.mem_toList_iff.mp he] at hwire
    exact hwire.listed
  lastOutputs node hnode := (hsound node hnode).lastOutput.listed
  stored node hnode values hvalues := ((hsound node hnode).combinator.stored values hvalues).listed
  readings e he := by
    obtain ⟨⟨node, index⟩, hnode, hreading⟩ := List.mem_filterMap.mp he
    obtain ⟨⟨signal, v⟩, hv, rfl⟩ := Option.map_eq_some_iff.mp hreading
    exact (hsound node (List.fst_mem_of_mem_zipIdx hnode)).combinator.shown signal v hv

/-- Whatever combinators are put into a network, and whatever ticks are run and buttons switched,
every signal on a wire, in the output of a combinator or in a constant or button has a value other
than 0 within the bounds, each set lists its signals once and in the order of their names, and every
display shows a value within the bounds. -/
theorem signalsListed_serveAll {statements : List Statement} (h : n.ComesFrom statements)
    {calls : List NetworkCall} (hcalls : ∀ call ∈ calls, call.Constructible) :
    (n.serveAll calls).SignalsListed :=
  (h.reachable.serveAll calls).signalsListed (h.sound.serveAll hcalls)

/-- Combinators with operands outside the bounds, a product that saturates and is multiplied again,
a test by an arithmetic operator, and a sum of comparisons, between a button and a display. -/
def unboundedOperands : List NetworkCall :=
  [.add (.arithmetic .mul (.constant (-2147483648)) (.constant (-2147483648)) "x") [] ["A"]
      .nowhere,
    .add (.decider .sub .any (.constant (-2147483648)) .all false) ["A"] ["B"] .nowhere,
    .add (.arithmeticSum .ge (.constant (-2147483648)) "y") ["A", "B"] ["C"] .nowhere,
    .add (.arithmeticEach .mul (.constant (-2147483648))) ["B"] ["A"] .nowhere,
    .add (.toggle (.collect [("x", -9223372036854775808), ("z", 0)]) false) [] ["C"] .nowhere,
    .add (.ofSignal "x") ["C"] [] .nowhere,
    .step, .setActive 4 true, .step, .step, .toggleActive 4, .step]

theorem signalsListed_serveAll_unboundedOperands : (empty {}).ComesFrom [] ∧
    (∀ call ∈ unboundedOperands, call.Constructible) ∧
    ((empty {}).serveAll unboundedOperands).SignalsListed ∧
    ((empty {}).serveAll unboundedOperands).readings = [(5, "x", -2147483647)] := by
  have hcomes : (empty {}).ComesFrom [] := ⟨{}, .inl rfl⟩
  have hcalls : ∀ call ∈ unboundedOperands, call.Constructible := by
    simp only [unboundedOperands, List.forall_mem_cons, NetworkCall.Constructible, true_and]
    exact ⟨.arithmetic _ _ _ _, .decider _ _ _ _ _, .arithmeticSum _ _ _, .arithmeticEach _ _,
      .toggle (.collect _) false, .display "x", List.forall_mem_nil _⟩
  exact ⟨hcomes, hcalls, signalsListed_serveAll hcomes hcalls, by decide +kernel⟩

end Network

end CombinatorNet
