import CombinatorNet.Proofs.Network.Calls

/-!
# The combinators of a network

The network of a list of statements has one combinator for each statement that asks for one, in
their order, and nothing is on its wires at first.

## Main definitions

* `Statement.node?` — the combinator of a statement

## Main results

* `Network.nodes_of_performEach` — the combinators of several statements
* `Network.exists_node?_of_mem_nodes` — each combinator comes from a statement
-/

namespace CombinatorNet

/-- The combinator that a statement appends, if it appends one. -/
def Statement.node? (s : Statement) : Option Node :=
  match s.request with
  | .constant drive values outputs => some ⟨.ofValues drive values, [], outputs, s.span, ∅⟩
  | .binary inputs expr outputs =>
    (Combinator.ofExpr expr).toOption.map (⟨·, inputs, outputs, s.span, ∅⟩)
  | .display inputs signal => some ⟨.ofSignal signal, inputs, [], s.span, ∅⟩
  | .label text level => some ⟨.ofHeading text level, [], [], s.span, ∅⟩
  | .paint _ _ | .instantiate _ _ => none

theorem Combinator.ofExpr_eq_ok_of_toOption {expr : Expr} {c : Combinator}
    (h : (ofExpr expr).toOption = some c) : ofExpr expr = .ok c := by
  cases hexpr : ofExpr expr with
  | error fault => rw [hexpr] at h; cases h
  | ok c' => rw [hexpr] at h; cases h; rfl

namespace Network

variable {n m : Network}

/-- To do what a statement asks for is to append its combinator, if it has one. -/
theorem perform_of_node? (n : Network) {s : Statement} {node : Node}
    (h : s.node? = some node) :
    n.perform s = n.append node.combinator node.inputs node.outputs node.span := by
  rw [Statement.node?] at h
  rw [perform]
  cases hr : s.request with
  | binary inputs expr outputs =>
    rw [hr] at h
    obtain ⟨c, hc, rfl⟩ := Option.map_eq_some_iff.mp h
    simp only [Combinator.ofExpr_eq_ok_of_toOption hc]
  | paint | instantiate =>
    rw [hr] at h
    cases h
  | constant | display | label =>
    rw [hr] at h
    cases h
    rfl

theorem nodes_of_append {c : Combinator} {inputs outputs : List String} {span : Span}
    (h : n.append c inputs outputs span = .ok m) :
    m.nodes = n.nodes ++ [⟨c, inputs, outputs, span, ∅⟩] ∧ m.state = n.state := by
  rw [append] at h
  rcases n.add_cases c inputs outputs span with ⟨_, -, heq⟩ | ⟨-, heq⟩ <;> rw [heq] at h <;> cases h
  exact ⟨rfl, rfl⟩

theorem nodes_of_paintEach {color : Color} {span : Span} {wires : List String}
    (h : n.paintEach color span wires = .ok m) : m.nodes = n.nodes ∧ m.state = n.state := by
  induction wires generalizing n with
  | nil =>
    cases h
    exact ⟨rfl, rfl⟩
  | cons wire wires ih =>
    rw [paintEach] at h
    rcases n.paint_cases wire color span with ⟨_, -, heq⟩ | ⟨-, heq⟩ <;> rw [heq] at h
    · cases h
    · have hrest := ih h
      exact hrest

theorem nodes_of_perform {s : Statement} (h : n.perform s = .ok m) :
    m.nodes = n.nodes ++ s.node?.toList ∧ m.state = n.state := by
  rw [perform] at h
  rw [Statement.node?]
  cases hr : s.request with
  | constant drive values outputs =>
    rw [hr] at h
    exact nodes_of_append h
  | binary inputs expr outputs =>
    rw [hr] at h
    cases hexpr : Combinator.ofExpr expr with
    | error fault =>
      simp only [hexpr] at h
      cases h
    | ok c =>
      simp only [hexpr] at h ⊢
      exact nodes_of_append h
  | display inputs signal =>
    rw [hr] at h
    exact nodes_of_append h
  | label text level =>
    rw [hr] at h
    exact nodes_of_append h
  | paint color wires =>
    rw [hr] at h
    rw [Option.toList_none, List.append_nil]
    exact nodes_of_paintEach h
  | instantiate name bindings =>
    rw [hr] at h
    cases h

/-- The combinators of a network are those of its statements, in their order. -/
theorem nodes_of_performEach {statements : List Statement}
    (h : n.performEach statements = .ok m) :
    m.nodes = n.nodes ++ statements.filterMap Statement.node? ∧ m.state = n.state := by
  induction statements generalizing n with
  | nil =>
    cases h
    rw [List.filterMap_nil, List.append_nil]
    exact ⟨rfl, rfl⟩
  | cons s rest ih =>
    obtain ⟨n', hs, hrest⟩ := exists_of_performEach_cons h
    obtain ⟨hnodes, hstate⟩ := nodes_of_perform hs
    obtain ⟨hnodes', hstate'⟩ := ih hrest
    refine ⟨?_, hstate'.trans hstate⟩
    rw [hnodes', hnodes, List.append_assoc]
    cases hnode : s.node? with
    | none => rw [List.filterMap_cons_none hnode, Option.toList_none, List.nil_append]
    | some node => rw [List.filterMap_cons_some hnode, Option.toList_some, List.singleton_append]

/-- Every combinator of a network that has just been built comes from a statement. -/
theorem exists_node?_of_mem_nodes {statements : List Statement} {settings : LayoutSettings}
    (h : ofStatements statements settings = .ok n) {node : Node} (hnode : node ∈ n.nodes) :
    ∃ s ∈ statements, s.node? = some node := by
  rw [(nodes_of_performEach h).1, empty, List.nil_append] at hnode
  exact List.mem_filterMap.mp hnode

end Network

end CombinatorNet
