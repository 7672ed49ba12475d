import CombinatorNet.Proofs.Combinator.Pointwise
import CombinatorNet.Proofs.Language.Instances
import CombinatorNet.Proofs.Language.RoundTrip
import CombinatorNet.Proofs.Network.Calls
import CombinatorNet.Proofs.Network.Nodes

/-!
# Reserved names on wires

The reserved names stand for the signals on a wire, and are not meant to be signals themselves. No
expression makes a combinator that writes one. A constant does if its statement gives a value to a
reserved name; no text says so outright, but a parameter among its names may stand for one.

## Main definitions

* `SignalSet.Unreserved`, `Network.Unreserved` — no reserved name is a signal, anywhere
* `Combinator.Unreserved` — a combinator has no reserved name to write

## Main results

* `Combinator.Unreserved.output` — what a combinator writes, given what it reads
* `Program.unreserved_iff` — reserved names are on no wire exactly if constants do not name them
-/

namespace CombinatorNet

/-! ### Signals -/

/-- None of the signals has a reserved name. -/
def SignalSet.Unreserved (s : SignalSet) : Prop := ∀ name ∈ s.present, isReserved name = false

namespace SignalSet

variable {s t : SignalSet}

theorem unreserved_empty : (∅ : SignalSet).Unreserved :=
  fun name h => absurd h (notMem_present_empty name)

theorem unreserved_single {name : String} (h : isReserved name = false) (v : Int) :
    (single name v).Unreserved :=
  fun _ hother => mem_present_single hother ▸ h

theorem Unreserved.filterMap (h : s.Unreserved) (f : Int → Option Int) :
    (s.filterMap f).Unreserved :=
  fun name hname => h name (mem_present_filterMap hname)

theorem Unreserved.merge (hs : s.Unreserved) (ht : t.Unreserved) : (s.merge t).Unreserved := by
  intro name hname
  rcases mem_present_merge hname with hname | hname
  · exact hs name hname
  · exact ht name hname

theorem unreserved_mergeAll {sets : List SignalSet} (h : ∀ t ∈ sets, t.Unreserved) :
    (mergeAll sets).Unreserved := by
  intro name hname
  obtain ⟨t, ht, hname⟩ := exists_mem_present_of_mergeAll hname
  exact h t ht name hname

theorem unreserved_collect {pairs : List (String × Int)}
    (h : ∀ e ∈ pairs, isReserved e.1 = false) : (collect pairs).Unreserved := by
  intro name hname
  obtain ⟨e, he, rfl⟩ := List.mem_map.mp (mem_of_mem_present_collect hname)
  exact h e he

end SignalSet

/-! ### Combinators -/

namespace Combinator

variable {c : Combinator} {input : SignalSet}

/-- The signals that a combinator has been given to write, if any, have no reserved names. -/
def Unreserved : Combinator → Prop
  | constant values | toggle values _ | pulse values _ => values.Unreserved
  | arithmetic _ _ _ output | arithmeticSum _ _ output => isReserved output = false
  | decider _ _ _ (.signal output) _ | deciderSum _ _ output _ => isReserved output = false
  | _ => True

/-- A combinator without reserved names to write only passes on those that it reads. -/
theorem Unreserved.output (h : c.Unreserved) (hinput : input.Unreserved) :
    (c.output input).Unreserved := by
  cases c with
  | constant values => exact h
  | toggle values active =>
    cases active
    · exact SignalSet.unreserved_empty
    · exact h
  | pulse values active =>
    cases active
    · exact SignalSet.unreserved_empty
    · exact h
  | arithmetic op left right output => exact SignalSet.unreserved_single h _
  | arithmeticSum op right output => exact SignalSet.unreserved_single h _
  | arithmeticEach op right => exact hinput.filterMap _
  | decider op left right target asOne =>
    rw [Combinator.output.eq_def]
    simp only
    split
    · cases target with
      | signal name => exact SignalSet.unreserved_single h _
      | all =>
        simp only
        split
        · exact hinput.filterMap _
        · exact hinput
    · exact SignalSet.unreserved_empty
  | deciderSum op right output asOne => exact SignalSet.unreserved_single h _
  | deciderEach op right asOne => exact hinput.filterMap _
  | display signal value => exact SignalSet.unreserved_empty
  | label text level => exact SignalSet.unreserved_empty

theorem Unreserved.next (h : c.Unreserved) : (c.next input).Unreserved := by
  cases c <;> exact h

theorem Unreserved.setActive (h : c.Unreserved) (active : Bool) :
    (c.setActive active).Unreserved := by
  cases c <;> exact h

theorem isReserved_eq_false {name : String} (h : Reserved.ofName? name = none) :
    isReserved name = false := by
  rw [isReserved, h]
  rfl

/-- No expression makes a combinator with a reserved name to write. -/
theorem unreserved_of_ofExpr {e : Expr} (h : ofExpr e = .ok c) : c.Unreserved := by
  have harithmetic : ofArithmetic e = .ok c → c.Unreserved := by
    intro h
    rw [ofArithmetic] at h
    split at h <;> cases h
    · trivial
    · next houtput => exact isReserved_eq_false houtput
    · next houtput => exact isReserved_eq_false houtput
  have hcomparison : ofComparison e = .ok c → c.Unreserved := by
    intro h
    rw [ofComparison] at h
    split at h <;> cases h
    · trivial
    · next houtput => exact isReserved_eq_false houtput
    · cases houtput : Reserved.ofName? e.output with
      | none => exact isReserved_eq_false houtput
      | some r => trivial
  rw [ofExpr] at h
  split at h
  · split at h
    · cases h
    · split at h
      · exact hcomparison h
      · exact harithmetic h
  · split at h
    · exact hcomparison h
    · exact harithmetic h

end Combinator

/-! ### Networks -/

/-- No wire carries a signal with a reserved name, and no combinator wrote one. -/
structure Network.Unreserved (n : Network) : Prop where
  wires : ∀ w, (n.wire w).Unreserved
  outputs : ∀ node ∈ n.nodes, node.lastOutput.Unreserved

/-- In addition, no combinator has a reserved name to write. -/
structure Network.StaysUnreserved (n : Network) : Prop extends n.Unreserved where
  combinators : ∀ node ∈ n.nodes, node.combinator.Unreserved

theorem Node.unreserved_write {node : Node} (h : node.lastOutput.Unreserved) {state : WireState}
    (hstate : ∀ w, ((state.get? w).getD ∅).Unreserved) (w : String) :
    (((node.write state).get? w).getD ∅).Unreserved := by
  rw [write]
  induction node.outputs generalizing state with
  | nil => exact hstate w
  | cons wire wires ih =>
    refine ih fun other => ?_
    rw [NameMap.get?_insert]
    split
    · exact (hstate wire).merge h
    · exact hstate other

theorem Node.unreserved_input {state : WireState}
    (hstate : ∀ w, ((state.get? w).getD ∅).Unreserved) (node : Node) :
    (node.input state).Unreserved := by
  rw [input, SignalSet.mergeAll_filterMap]
  exact SignalSet.unreserved_mergeAll (List.forall_mem_map.mpr fun w _ => hstate w)

namespace Network

variable {n m : Network}

theorem StaysUnreserved.step (h : n.StaysUnreserved) : n.step.StaysUnreserved := by
  have hnodes : ∀ node ∈ n.step.nodes,
      node.lastOutput.Unreserved ∧ node.combinator.Unreserved := by
    intro node hnode
    obtain ⟨before, hbefore, rfl⟩ := List.mem_map.mp hnode
    have hinput := before.unreserved_input h.wires
    exact ⟨(h.combinators before hbefore).output hinput, (h.combinators before hbefore).next⟩
  refine ⟨⟨?_, fun node hnode => (hnodes node hnode).1⟩,
    fun node hnode => (hnodes node hnode).2⟩
  -- By induction on the combinators, which write one after the other to wires that carry nothing.
  have hwrite : ∀ (nodes : List Node) (state : WireState),
      (∀ node ∈ nodes, node.lastOutput.Unreserved) →
      (∀ w, ((state.get? w).getD ∅).Unreserved) →
      ∀ w, (((nodes.foldl Node.write state).get? w).getD ∅).Unreserved := by
    intro nodes
    induction nodes with
    | nil => exact fun _ _ hstate => hstate
    | cons node nodes ih =>
      intro state hnodes hstate
      obtain ⟨hnode, hnodes⟩ := List.forall_mem_cons.mp hnodes
      exact ih _ hnodes (Node.unreserved_write hnode hstate)
  exact hwrite n.step.nodes ∅ (fun node hnode => (hnodes node hnode).1)
    fun _ => SignalSet.unreserved_empty

theorem StaysUnreserved.of_setActive (h : n.StaysUnreserved) {index : Nat} {active : Bool}
    (hset : n.setActive index active = .ok m) : m.StaysUnreserved := by
  obtain ⟨node, hnode, -, rfl⟩ := setActive_eq_ok hset
  have hmem := List.mem_of_getElem? hnode
  refine ⟨⟨h.wires, fun node' hnode' => ?_⟩, fun node' hnode' => ?_⟩
  · rcases List.mem_or_eq_of_mem_set hnode' with hold | rfl
    · exact h.outputs node' hold
    · exact h.outputs node hmem
  · rcases List.mem_or_eq_of_mem_set hnode' with hold | rfl
    · exact h.combinators node' hold
    · exact (h.combinators node hmem).setActive active

theorem nodes_serve_finalize (n : Network) : (n.serve .finalize).2.nodes = n.nodes ∧
    (n.serve .finalize).2.state = n.state := by
  obtain ⟨layout, heq⟩ := n.exists_serve_finalize
  rw [heq]
  exact ⟨rfl, rfl⟩

/-- Ticks, buttons and the layout bring no reserved names. -/
theorem StaysUnreserved.serve (h : n.StaysUnreserved) {call : NetworkCall}
    (hcall : call.isDemand = false) : (n.serve call).2.StaysUnreserved := by
  cases call with
  | add | paint => cases hcall
  | step => exact h.step
  | setActive index active =>
    rw [Network.serve]
    cases hset : n.setActive index active with
    | error e => exact h
    | ok m => exact h.of_setActive hset
  | toggleActive index =>
    rw [Network.serve]
    cases htoggle : n.toggleActive index with
    | error e => exact h
    | ok r => exact h.of_setActive (toggleActive_eq_ok htoggle)
  | finalize =>
    obtain ⟨layout, heq⟩ := n.exists_serve_finalize
    rw [heq]
    exact ⟨⟨h.wires, h.outputs⟩, h.combinators⟩

theorem StaysUnreserved.serveAll (h : n.StaysUnreserved) {calls : List NetworkCall}
    (hcalls : ∀ call ∈ calls, call.isDemand = false) : (n.serveAll calls).StaysUnreserved := by
  induction calls generalizing n with
  | nil => exact h
  | cons call calls ih =>
    obtain ⟨hcall, hcalls⟩ := List.forall_mem_cons.mp hcalls
    exact ih (h.serve hcall) hcalls

end Network

/-! ### Programs -/

/-- The values of a statement, if it has any, leave no signal with a reserved name. -/
def Request.ValuesUnreserved : Request → Prop
  | constant _ values _ => (SignalSet.collect values).Unreserved
  | _ => True

namespace Network

variable {n : Network} {statements : List Statement}

/-- The combinator of a statement has no reserved name to write, if its values leave none. -/
theorem unreserved_of_node? {s : Statement} (h : s.request.ValuesUnreserved) {node : Node}
    (hnode : s.node? = some node) :
    node.combinator.Unreserved ∧ node.lastOutput.Unreserved := by
  rw [Statement.node?] at hnode
  split at hnode
  · next drive values outputs hr =>
    cases hnode
    rw [hr] at h
    refine ⟨?_, SignalSet.unreserved_empty⟩
    cases drive <;> exact h
  · next expr _ _ =>
    obtain ⟨c, hc, rfl⟩ := Option.map_eq_some_iff.mp hnode
    have hmade := Combinator.ofExpr_eq_ok_of_toOption hc
    exact ⟨Combinator.unreserved_of_ofExpr hmade, SignalSet.unreserved_empty⟩
  · cases hnode
    exact ⟨trivial, SignalSet.unreserved_empty⟩
  · cases hnode
    exact ⟨trivial, SignalSet.unreserved_empty⟩
  · cases hnode
  · cases hnode

theorem staysUnreserved_of_ofStatements {settings : LayoutSettings}
    (h : ofStatements statements settings = .ok n)
    (hvalues : ∀ s ∈ statements, s.request.ValuesUnreserved) : n.StaysUnreserved := by
  obtain ⟨-, hstate⟩ := nodes_of_performEach h
  have hboth : ∀ node ∈ n.nodes, node.combinator.Unreserved ∧ node.lastOutput.Unreserved := by
    intro node hnode
    obtain ⟨s, hs, hsome⟩ := exists_node?_of_mem_nodes h hnode
    exact unreserved_of_node? (hvalues s hs) hsome
  refine ⟨⟨fun w => ?_, fun node hnode => (hboth node hnode).2⟩,
    fun node hnode => (hboth node hnode).1⟩
  rw [wire, hstate]
  exact SignalSet.unreserved_empty

/-- Switching any combinator leaves it as it is, unless it is a button. -/
theorem nodes_serve_setActive {index : Nat} {node : Node} (h : n.nodes[index]? = some node)
    (active : Bool) : (n.serve (.setActive index active)).2.nodes[index]? =
      some { node with combinator := node.combinator.setActive active } := by
  have hlt : index < n.nodes.length := (List.getElem?_eq_some_iff.mp h).1
  rw [serve, setActive, h]
  simp only
  split
  · simp [Except.map, orKeep, hlt]
  · next hbutton =>
    have hsame : node.combinator.setActive active = node.combinator := by
      cases hc : node.combinator <;> rw [hc] at hbutton <;> first | rfl | exact absurd rfl hbutton
    rw [hsame]
    exact h

/-- A constant that is switched on, if it is a button, writes its values in the next tick. -/
theorem exists_lastOutput_eq_collect {drive : Drive} {values : List (String × Int)} {node : Node}
    (hnode : node ∈ n.nodes) (hc : node.combinator = .ofValues drive values) :
    ∃ index, ∃ after ∈ (n.serveAll [.setActive index true, .step]).nodes,
      after.lastOutput = .collect values := by
  obtain ⟨index, hindex⟩ := List.mem_iff_getElem?.mp hnode
  have hswitched := nodes_serve_setActive hindex true
  refine ⟨index, _, List.mem_map_of_mem (List.mem_of_getElem? hswitched), ?_⟩
  rw [Node.step, hc]
  cases drive <;> rfl

end Network

/-- The names that a request passes to an instance, with the parameters they are passed for. -/
def Request.bindings : Request → List Binding
  | instantiate _ bindings => bindings
  | _ => []

/-- No statement passes a reserved name to an instance. -/
def Program.PassesUnreserved (p : Program) : Prop :=
  ∀ t ∈ p.templates, ∀ s ∈ t.body, ∀ b ∈ s.request.bindings, isReserved b.actual = false

instance (p : Program) : Decidable p.PassesUnreserved :=
  inferInstanceAs (Decidable (∀ t ∈ p.templates, _))

/-- In a program from a text, values are not given to reserved names, nor to parameters that stand
for one if none is passed. -/
theorem Program.valuesUnreserved_of_parse {source : String} {p : Program} {limit : Nat}
    {statements : List Statement} (hparse : Program.parse source = .ok p)
    (hpasses : p.PassesUnreserved) (hflat : p.flatten limit = .ok statements) :
    ∀ s ∈ statements, s.request.ValuesUnreserved := by
  have hwell := wellFormed_of_parse hparse
  have hp : p.Invariant
      (fun scope => ∀ name, isReserved name = false → isReserved (scope.signal name) = false)
      fun s => s.request.ValuesUnreserved := by
    refine ⟨fun name h => ?_, ?_, ?_⟩
    · rwa [Scope.signal_root]
    · intro t ht s hs name bindings hr caller hcaller callee bound hbind owner signal hsignal
      rw [Scope.signal, hsignal, Template.get?_bind hbind, NameMap.get?_empty, Option.none_or]
      simp only [Bool.false_eq_true, if_false]
      cases hfind : bindings.find? fun b => b.formal = signal with
      | none => exact hsignal
      | some b =>
        have hb : b ∈ s.request.bindings := by
          rw [hr]
          exact List.mem_of_find?_eq_some hfind
        exact hcaller _ (hpasses t ht s hs b hb)
    · intro t ht s hs _ scope hscope
      have hrequest := (hwell.templates t ht).body s hs
      cases hr : s.request with
      | constant drive values outputs =>
        rw [hr] at hrequest
        refine SignalSet.unreserved_collect (List.forall_mem_map.mpr fun e he => ?_)
        exact hscope e.1 (hrequest.1 e he).2.1
      | _ => trivial
  exact hp.flatten hflat

/-- In a compiled program no wire ever carries a signal with a reserved name, and no combinator ever
writes one, whatever ticks are run and buttons switched, exactly if no constant, toggle or pulse of
the flattened program is left with a signal of such a name. In a program from a text, none is unless
an instance is passed a reserved name. -/
theorem Program.unreserved_iff {p : Program} {settings : CompileSettings}
    {statements : List Statement} {n : Network}
    (hflat : p.flatten settings.maxDepth = .ok statements) (hcompile : p.compile settings = .ok n) :
    ((∀ calls : List NetworkCall, (∀ call ∈ calls, call.isDemand = false) →
      (n.serveAll calls).Unreserved) ↔ ∀ s ∈ statements, s.request.ValuesUnreserved) ∧
    ∀ source, Program.parse source = .ok p → p.PassesUnreserved →
      ∀ calls : List NetworkCall, (∀ call ∈ calls, call.isDemand = false) →
        (n.serveAll calls).Unreserved := by
  obtain ⟨statements', built, hflat', hbuilt, rfl⟩ :=
    Network.exists_ofStatements_of_compile hcompile
  rw [hflat] at hflat'
  cases hflat'
  have hkept : (∀ s ∈ statements, s.request.ValuesUnreserved) →
      ∀ calls : List NetworkCall, (∀ call ∈ calls, call.isDemand = false) →
        ((built.serve .finalize).2.serveAll calls).Unreserved := by
    intro hvalues calls hcalls
    have hstart := Network.staysUnreserved_of_ofStatements hbuilt hvalues
    exact ((hstart.serve rfl).serveAll hcalls).toUnreserved
  refine ⟨⟨fun hcalls s hs => ?_, hkept⟩, fun source hparse hpasses =>
    hkept (valuesUnreserved_of_parse hparse hpasses hflat)⟩
  cases hr : s.request with
  | constant drive values outputs =>
    -- The combinator of the statement writes its values as soon as it is on.
    have hnode : ⟨.ofValues drive values, [], outputs, s.span, ∅⟩ ∈ built.nodes := by
      rw [(Network.nodes_of_performEach hbuilt).1]
      refine List.mem_append_right _ (List.mem_filterMap.mpr ⟨s, hs, ?_⟩)
      rw [Statement.node?, hr]
    have hlaid : (built.serve .finalize).2.nodes = built.nodes :=
      (Network.nodes_serve_finalize built).1
    obtain ⟨index, after, hafter, houtput⟩ :=
      Network.exists_lastOutput_eq_collect (hlaid ▸ hnode) rfl
    have hunreserved := (hcalls _ (by simp [NetworkCall.isDemand])).outputs after hafter
    rw [houtput] at hunreserved
    exact hunreserved
  | _ => trivial

/-- A button whose signal is passed to it. -/
def passedSignal : String :=
  "Main() \x7b S(OUT=W, p=x) \x7d S(OUT, p) \x7b toggle \x7bp: 1\x7d -> OUT \x7d"

theorem Program.unreserved_iff_passedSignal :
    ∃ p n, Program.parse passedSignal = .ok p ∧ p.compile {} = .ok n ∧
      ∀ calls : List NetworkCall, (∀ call ∈ calls, call.isDemand = false) →
        (n.serveAll calls).Unreserved := by
  let p := (Program.parse passedSignal).toOption.getD default
  let statements := (p.flatten 32).toOption.getD []
  have hparse : Program.parse passedSignal = .ok p := by decide +kernel
  have hflat : p.flatten 32 = .ok statements := by decide +kernel
  have hpasses : p.PassesUnreserved := by decide +kernel
  have hcompiles : (p.compile {}).toOption.isSome = true := by decide +kernel
  cases hcompile : p.compile {} with
  | error e => rw [hcompile] at hcompiles; cases hcompiles
  | ok n => exact ⟨p, n, hparse, hcompile, (unreserved_iff hflat hcompile).2 _ hparse hpasses⟩

/-- A constant whose signal is passed to it, which is a reserved name. -/
def passedReserved : String :=
  "Main() \x7b S(OUT=W, p=each) \x7d S(OUT, p) \x7b \x7bp: 1\x7d -> OUT \x7d"

/-- The wire carries the reserved name after a tick. -/
theorem reserved_on_wire : ∃ n, compile passedReserved {} = .ok n ∧
    isReserved "each" = true ∧ "each" ∈ (n.step.wire "W").present ∧ ¬ n.step.Unreserved := by
  have hvalue : ((compile passedReserved {}).map fun n =>
      (n.step.wire "W").values.get? "each") = .ok (some 1) := by decide +kernel
  cases hcompile : compile passedReserved {} with
  | error e => rw [hcompile] at hvalue; cases hvalue
  | ok n =>
    rw [hcompile] at hvalue
    have hget : (n.step.wire "W").values.get? "each" = some 1 := Except.ok.inj hvalue
    have hpresent : "each" ∈ (n.step.wire "W").present := by
      rw [SignalSet.mem_present, hget]
      rfl
    exact ⟨n, rfl, rfl, hpresent, fun h => by cases h.wires "W" "each" hpresent⟩

end CombinatorNet
