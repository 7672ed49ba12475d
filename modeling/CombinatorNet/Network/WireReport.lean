import CombinatorNet.Network.Basic

/-!
# Wires with only one kind of end

## Main definitions

* `WireReport` — the wires that are only read, and those that are only written
* `Network.wireReport` — the report on a network

## Main results

* `mem_undriven_iff`, `mem_unread_iff` — what the report lists
-/

namespace CombinatorNet

/-- The wires of a network that lack a writer or a reader. -/
structure WireReport where
  /-- The wires that are read but not written, in ascending order. -/
  undriven : List String
  /-- The wires that are written but not read, in ascending order. -/
  unread : List String
deriving DecidableEq, Repr

/-- Whether no wire lacks anything. -/
def WireReport.isClean (r : WireReport) : Bool := r.undriven.isEmpty && r.unread.isEmpty

/-- The names of a list in ascending order, each of them once. -/
def distinctNames (names : List String) : List String :=
  (NameMap.ofList (names.map fun n => (n, ()))).names

namespace Network

/-- All wires that combinators read. -/
def readWires (n : Network) : List String := n.nodes.flatMap Node.inputs

/-- All wires that combinators write. -/
def drivenWires (n : Network) : List String := n.nodes.flatMap Node.outputs

/-- The wires that lack a writer or a reader. -/
def wireReport (n : Network) : WireReport where
  undriven := (distinctNames n.readWires).filter fun w => !n.drivenWires.contains w
  unread := (distinctNames n.drivenWires).filter fun w => !n.readWires.contains w

end Network

theorem mem_distinctNames {names : List String} {w : String} :
    w ∈ distinctNames names ↔ w ∈ names := by
  have key : ∀ (ns : List String) (m : NameMap Unit),
      w ∈ ((ns.map fun n => (n, ())).foldl (fun m e => m.insert e.1 e.2) m).names ↔
        w ∈ ns ∨ w ∈ m.names := by
    intro ns
    induction ns with
    | nil => simp
    | cons n ns ih =>
      intro m
      rw [List.map_cons, List.foldl_cons, ih, List.mem_cons, NameMap.mem_names_iff,
        NameMap.mem_names_iff, NameMap.get?_insert]
      by_cases h : w = n <;> simp [h]
  rw [distinctNames, NameMap.ofList, key]
  simp [NameMap.empty, NameMap.names]

/-- A wire is undriven if some combinator reads it and none writes it. -/
theorem mem_undriven_iff {n : Network} {w : String} :
    w ∈ n.wireReport.undriven ↔ w ∈ n.readWires ∧ w ∉ n.drivenWires := by
  simp [Network.wireReport, mem_distinctNames]

/-- A wire is unread if some combinator writes it and none reads it. -/
theorem mem_unread_iff {n : Network} {w : String} :
    w ∈ n.wireReport.unread ↔ w ∈ n.drivenWires ∧ w ∉ n.readWires := by
  simp [Network.wireReport, mem_distinctNames]

end CombinatorNet
