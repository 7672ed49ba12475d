import CombinatorNet.Network.Compile
import CombinatorNet.Proofs.Coloring.Decision

/-!
# Requests to a network

A network is built from statements and then takes requests, each of which it serves or refuses. The
networks that come about in this way are those that the empty network leads to, so what holds of it
and is kept by every request holds of all of them.

## Main definitions

* `NetworkCall`, `Network.serve` — a request, and the answer to it with the network afterwards
* `Statement.calls` — the requests that a statement comes to
* `Network.serveAll` — the network after several requests
* `Network.view`, `Network.transcript` — what can be seen of a network, and of its answers to
  several requests
* `Network.Reachable` — a network that comes about by requests
* `Network.wiring`, `Network.SameWires` — the wires of each side of each combinator

## Main results

* `Network.add_cases`, `Network.paint_cases` — a combinator or a color is accepted or refused
* `Network.serveAll_of_performEach` — building a network is requesting what its statements come to
* `Network.Reachable.induction` — what the empty network has and requests keep, reachable networks
  have
* `Network.reachable_of_compile` — compiled networks are reachable
* `Network.forall_mem_nodes_serve` — what ticks and switches keep of combinators, requests keep
* `Network.sameWires_serve` — only combinators and colors have to do with the wires
* `Network.Reachable.represents` — the coloring of a reachable network stands for constraints
-/

namespace CombinatorNet

/-- A request to a network. -/
inductive NetworkCall
  /-- Append a combinator with the given wires. -/
  | add (combinator : Combinator) (inputs outputs : List String) (span : Span)
  /-- Give a wire a color. -/
  | paint (wire : String) (color : Color) (span : Span)
  /-- Run one tick. -/
  | step
  /-- Switch a button on or off. -/
  | setActive (index : Nat) (active : Bool)
  /-- Switch a button to its other state. -/
  | toggleActive (index : Nat)
  /-- Compute the layout. -/
  | finalize

/-- Whether a request is for a combinator or for a color, both of which demand something of the
colors of wires. -/
def NetworkCall.isDemand : NetworkCall → Bool
  | add .. | paint .. => true
  | _ => false

/-- The requests that a statement comes to: one for its combinator, or one for each color. -/
def Statement.calls (s : Statement) : List NetworkCall :=
  match s.request with
  | .constant drive values outputs => [.add (.ofValues drive values) [] outputs s.span]
  | .binary inputs expr outputs =>
    match Combinator.ofExpr expr with
    | .ok c => [.add c inputs outputs s.span]
    | .error _ => []
  | .display inputs signal => [.add (.ofSignal signal) inputs [] s.span]
  | .label text level => [.add (.ofHeading text level) [] [] s.span]
  | .paint color wires => wires.map (.paint · color s.span)
  | .instantiate _ _ => []

/-- What a network answers to a request that it serves. -/
inductive NetworkAnswer
  /-- The index of the combinator that was appended. -/
  | appended (index : Nat)
  | done
  /-- The state of the button afterwards. -/
  | switched (active : Bool)
  | laidOut (layout : Layout)

/-- What can be seen of a network. -/
structure NetworkView where
  nodes : List Node
  state : WireState
  tick : Nat
  colors : NameMap Color
  layout : Option Layout

namespace Network

variable {n m : Network} {α : Type}

/-- The reply to a request that changes nothing when it is refused. -/
def orKeep (n : Network) : Except NetworkError (α × Network) → Reply α
  | .ok (a, n') => (.ok a, n')
  | .error e => (.error e, n)

/-- Serve a request. -/
def serve (n : Network) : NetworkCall → Reply NetworkAnswer
  | .add c inputs outputs span =>
    ((n.add c inputs outputs span).1.map .appended, (n.add c inputs outputs span).2)
  | .paint wire color span =>
    ((n.paint wire color span).1.map fun _ => .done, (n.paint wire color span).2)
  | .step => (.ok .done, n.step)
  | .setActive index active => n.orKeep ((n.setActive index active).map (.done, ·))
  | .toggleActive index => n.orKeep ((n.toggleActive index).map fun r => (.switched r.1, r.2))
  | .finalize => n.orKeep (n.finalize.map fun r => (.laidOut r.1, r.2))

/-- The network after several requests, whether these are served or refused. -/
def serveAll (n : Network) : List NetworkCall → Network
  | [] => n
  | call :: calls => (n.serve call).2.serveAll calls

@[simp] theorem serveAll_nil (n : Network) : n.serveAll [] = n := rfl

@[simp] theorem serveAll_cons (n : Network) (call : NetworkCall) (calls : List NetworkCall) :
    n.serveAll (call :: calls) = (n.serve call).2.serveAll calls := rfl

theorem serveAll_append (n : Network) (before after : List NetworkCall) :
    n.serveAll (before ++ after) = (n.serveAll before).serveAll after := by
  induction before generalizing n with
  | nil => rfl
  | cons call before ih => exact ih _

/-- Running ticks is asking for one after the other. -/
theorem serveAll_replicate_step (n : Network) (ticks : Nat) :
    n.serveAll (List.replicate ticks .step) = n.run ticks := by
  induction ticks generalizing n with
  | zero => rfl
  | succ ticks ih => exact ih _

/-- What can be seen of a network. -/
def view (n : Network) : NetworkView := ⟨n.nodes, n.state, n.tick, n.colors, n.layout⟩

/-- The answers to several requests, each with what can be seen afterwards. -/
def transcript (n : Network) :
    List NetworkCall → List (Except NetworkError NetworkAnswer × NetworkView)
  | [] => []
  | call :: calls =>
    ((n.serve call).1, (n.serve call).2.view) :: (n.serve call).2.transcript calls

/-- The networks of lists of statements, and what becomes of them by requests, whether these are
served or refused. -/
inductive Reachable : Network → Prop
  | ofStatements {statements : List Statement} {settings : LayoutSettings} {n : Network}
      (h : ofStatements statements settings = .ok n) : Reachable n
  | serve {n : Network} (h : Reachable n) (call : NetworkCall) : Reachable (n.serve call).2

theorem Reachable.serveAll (h : Reachable n) (calls : List NetworkCall) :
    Reachable (n.serveAll calls) := by
  induction calls generalizing n with
  | nil => exact h
  | cons call calls ih => exact ih (h.serve call)

theorem Reachable.run (h : Reachable n) (ticks : Nat) : Reachable (n.run ticks) :=
  serveAll_replicate_step n ticks ▸ h.serveAll _

/-- Where statements lead to a result, it is the result of the network that they make up. -/
theorem exists_of_bind_ofStatements {statements : List Statement} {settings : LayoutSettings}
    {f : Network → Except NetworkError α} {a : α}
    (h : (ofStatements statements settings).bind f = .ok a) :
    ∃ n, ofStatements statements settings = .ok n ∧ Reachable n ∧ f n = .ok a := by
  cases hn : ofStatements statements settings with
  | error e => rw [hn] at h; cases h
  | ok n => rw [hn] at h; exact ⟨n, rfl, .ofStatements hn, h⟩

theorem exists_of_map_ofStatements {statements : List Statement} {settings : LayoutSettings}
    {f : Network → α} {a : α} (h : (ofStatements statements settings).map f = .ok a) :
    ∃ n, ofStatements statements settings = .ok n ∧ Reachable n ∧ f n = a := by
  cases hn : ofStatements statements settings with
  | error e => rw [hn] at h; cases h
  | ok n => rw [hn] at h; exact ⟨n, rfl, .ofStatements hn, Except.ok.inj h⟩

/-! ### Combinators and colors -/

/-- A combinator is accepted exactly if its sides are, and otherwise only the forest is touched. -/
theorem add_cases (n : Network) (c : Combinator) (inputs outputs : List String) (span : Span) :
    (∃ fault, (n.coloring.attachAll [inputs, outputs]).1 = .error fault ∧
      n.add c inputs outputs span = (.error (.coloring fault (some span)),
        { n with coloring := (n.coloring.attachAll [inputs, outputs]).2 })) ∨
    ((n.coloring.attachAll [inputs, outputs]).1 = .ok () ∧
      n.add c inputs outputs span = (.ok n.nodes.length,
        { n with
          nodes := n.nodes ++ [⟨c, inputs, outputs, span, ∅⟩]
          coloring := (n.coloring.attachAll [inputs, outputs]).2
          layout := none })) := by
  rw [add]
  rcases n.coloring.attachAll [inputs, outputs] with ⟨fault | _, coloring⟩
  · exact .inl ⟨fault, rfl, rfl⟩
  · exact .inr ⟨rfl, rfl⟩

/-- A color is accepted exactly if the forest accepts it, and otherwise only the forest is touched.
-/
theorem paint_cases (n : Network) (wire : String) (color : Color) (span : Span) :
    (∃ fault, (n.coloring.paint wire color).1 = .error fault ∧
      n.paint wire color span = (.error (.coloring fault (some span)),
        { n with coloring := (n.coloring.paint wire color).2 })) ∨
    ((n.coloring.paint wire color).1 = .ok () ∧
      n.paint wire color span = (.ok (),
        { n with coloring := (n.coloring.paint wire color).2, layout := none })) := by
  rw [paint]
  rcases n.coloring.paint wire color with ⟨fault | _, coloring⟩
  · exact .inl ⟨fault, rfl, rfl⟩
  · exact .inr ⟨rfl, rfl⟩

theorem coloring_add (c : Combinator) (inputs outputs : List String) (span : Span) :
    (n.add c inputs outputs span).2.coloring = (n.coloring.attachAll [inputs, outputs]).2 := by
  rcases n.add_cases c inputs outputs span with ⟨_, -, heq⟩ | ⟨-, heq⟩ <;> rw [heq]

theorem coloring_paint (wire : String) (color : Color) (span : Span) :
    (n.paint wire color span).2.coloring = (n.coloring.paint wire color).2 := by
  rcases n.paint_cases wire color span with ⟨_, -, heq⟩ | ⟨-, heq⟩ <;> rw [heq]

/-! ### Building is requesting -/

/-- Statements are done one after the other. -/
theorem exists_of_performEach_cons {s : Statement} {rest : List Statement}
    (h : n.performEach (s :: rest) = .ok m) :
    ∃ n', n.perform s = .ok n' ∧ n'.performEach rest = .ok m := by
  rw [performEach] at h
  cases hs : n.perform s with
  | error e => rw [hs] at h; cases h
  | ok n' => rw [hs] at h; exact ⟨n', rfl, h⟩

theorem serveAll_of_append {c : Combinator} {inputs outputs : List String} {span : Span}
    (h : n.append c inputs outputs span = .ok m) :
    m = n.serveAll [.add c inputs outputs span] := by
  rw [append] at h
  rw [serveAll_cons, serveAll_nil, serve]
  rcases n.add_cases c inputs outputs span with ⟨_, -, heq⟩ | ⟨-, heq⟩ <;> rw [heq] at h ⊢ <;> cases h
  rfl

theorem serveAll_of_paintEach {color : Color} {span : Span} {wires : List String}
    (h : n.paintEach color span wires = .ok m) :
    m = n.serveAll (wires.map (.paint · color span)) := by
  induction wires generalizing n with
  | nil =>
    cases h
    rfl
  | cons wire wires ih =>
    rw [paintEach] at h
    rw [List.map_cons, serveAll_cons, serve]
    rcases n.paint_cases wire color span with ⟨_, -, heq⟩ | ⟨-, heq⟩ <;> rw [heq] at h ⊢
    · cases h
    · exact ih h

theorem serveAll_of_perform {s : Statement} (h : n.perform s = .ok m) :
    m = n.serveAll s.calls := by
  rw [perform] at h
  rw [Statement.calls]
  cases hr : s.request with
  | constant | display | label =>
    rw [hr] at h
    exact serveAll_of_append h
  | binary inputs expr outputs =>
    rw [hr] at h
    cases hexpr : Combinator.ofExpr expr with
    | ok c =>
      simp only [hexpr] at h ⊢
      exact serveAll_of_append h
    | error fault =>
      simp only [hexpr] at h
      cases h
  | paint color wires =>
    rw [hr] at h
    exact serveAll_of_paintEach h
  | instantiate name bindings =>
    rw [hr] at h
    cases h

/-- To build a network is to request what its statements come to, one after the other. -/
theorem serveAll_of_performEach {statements : List Statement}
    (h : n.performEach statements = .ok m) :
    m = n.serveAll (statements.flatMap Statement.calls) := by
  induction statements generalizing n with
  | nil =>
    cases h
    rfl
  | cons s rest ih =>
    obtain ⟨n', hs, hrest⟩ := exists_of_performEach_cons h
    rw [ih hrest, serveAll_of_perform hs, List.flatMap_cons, serveAll_append]

/-- What holds of the empty networks and is kept by every request holds of reachable networks. -/
private theorem Reachable.of_serve {P : Network → Prop} (hempty : ∀ settings, P (empty settings))
    (hserve : ∀ n call, P n → P (n.serve call).2) (h : Reachable n) : P n := by
  have hserveAll : ∀ (calls : List NetworkCall) (n : Network), P n → P (n.serveAll calls) := by
    intro calls
    induction calls with
    | nil => exact fun n hn => hn
    | cons call calls ih => exact fun n hn => ih _ (hserve n call hn)
  induction h with
  | ofStatements h =>
    rw [serveAll_of_performEach h]
    exact hserveAll _ _ (hempty _)
  | serve _ call ih => exact hserve _ call ih

/-- What holds of the empty networks, and is kept by every request to a reachable network, holds of
all reachable networks. -/
theorem Reachable.induction {P : Network → Prop} (hempty : ∀ settings, P (empty settings))
    (hserve : ∀ n call, Reachable n → P n → P (n.serve call).2) (h : Reachable n) : P n := by
  have hboth : Reachable n ∧ P n := by
    refine Reachable.of_serve (P := fun n => Reachable n ∧ P n)
      (fun settings => ⟨?_, hempty settings⟩)
      (fun n call hn => ⟨hn.1.serve call, hserve n call hn.1 hn.2⟩) h
    exact .ofStatements (rfl : Network.ofStatements [] settings = .ok (empty settings))
  exact hboth.2

/-- Compiling a program is building the network of its statements and asking for the layout. -/
theorem exists_ofStatements_of_compile {p : Program} {settings : CompileSettings}
    (h : p.compile settings = .ok n) : ∃ statements built,
      p.flatten settings.maxDepth = .ok statements ∧
      Network.ofStatements statements settings.layout = .ok built ∧
      n = (built.serve .finalize).2 := by
  rw [Program.compile] at h
  cases hflat : p.flatten settings.maxDepth with
  | error e => rw [hflat] at h; cases h
  | ok statements =>
    rw [hflat] at h
    simp only [bind, Except.bind] at h
    cases hbuilt : Network.ofStatements statements settings.layout with
    | error e => rw [hbuilt] at h; cases h
    | ok built =>
      rw [hbuilt] at h
      simp only at h
      cases hlaid : built.finalize with
      | error e => rw [hlaid] at h; cases h
      | ok r =>
        rw [hlaid] at h
        cases h
        refine ⟨statements, built, rfl, hbuilt, ?_⟩
        rw [serve, hlaid]
        rfl

theorem reachable_of_compile {source : String} {settings : CompileSettings}
    (h : compile source settings = .ok n) : Reachable n := by
  rw [compile] at h
  cases hparse : Program.parse source with
  | error e => rw [hparse] at h; cases h
  | ok p =>
    rw [hparse] at h
    obtain ⟨statements, built, -, hbuilt, rfl⟩ := exists_ofStatements_of_compile h
    exact (Reachable.ofStatements hbuilt).serve .finalize

/-! ### Buttons -/

/-- Only a button can be switched, which changes its state and nothing else. -/
theorem setActive_eq_ok {index : Nat} {active : Bool} (h : n.setActive index active = .ok m) :
    ∃ node, n.nodes[index]? = some node ∧ node.combinator.active?.isSome ∧
      m = { n with
            nodes := n.nodes.set index
              { node with combinator := node.combinator.setActive active } } := by
  rw [setActive] at h
  split at h
  · cases h
  · next node hnode =>
    split at h
    · next hbutton =>
      cases h
      exact ⟨node, hnode, hbutton, rfl⟩
    · cases h

/-- A button is toggled by switching it. -/
theorem toggleActive_eq_ok {index : Nat} {active : Bool}
    (h : n.toggleActive index = .ok (active, m)) : n.setActive index active = .ok m := by
  rw [toggleActive] at h
  split at h
  · cases h
  · split at h
    · cases h
    · next active' _ =>
      cases hset : n.setActive index !active' with
      | error e => rw [hset] at h; cases h
      | ok m' =>
        rw [hset] at h
        cases h
        exact hset

/-- Asking for the layout leaves all but the layout. -/
theorem exists_serve_finalize (n : Network) :
    ∃ layout, (n.serve .finalize).2 = { n with layout } := by
  rw [serve, finalize]
  split
  · exact ⟨_, rfl⟩
  · split <;> exact ⟨_, rfl⟩

/-- What ticks and switches keep of every combinator, a request keeps of all of them, given that it
holds of the one that the request appends, if any. -/
theorem forall_mem_nodes_serve {P : Node → Prop} (h : ∀ node ∈ n.nodes, P node) {call : NetworkCall}
    (hadd : ∀ c inputs outputs span, call = .add c inputs outputs span →
      P ⟨c, inputs, outputs, span, ∅⟩)
    (hstep : ∀ node ∈ n.nodes, P (node.step n.state))
    (hset : ∀ node ∈ n.nodes, ∀ active,
      P { node with combinator := node.combinator.setActive active }) :
    ∀ node ∈ (n.serve call).2.nodes, P node := by
  have hswitched : ∀ {index active m}, n.setActive index active = .ok m →
      ∀ node ∈ m.nodes, P node := by
    intro index active m hok node' hnode'
    obtain ⟨node, hnode, -, rfl⟩ := setActive_eq_ok hok
    rcases List.mem_or_eq_of_mem_set hnode' with hold | rfl
    · exact h node' hold
    · exact hset node (List.mem_of_getElem? hnode) active
  cases call with
  | add c inputs outputs span =>
    rw [serve]
    rcases n.add_cases c inputs outputs span with ⟨_, -, heq⟩ | ⟨-, heq⟩ <;> rw [heq]
    · exact h
    · exact List.forall_mem_append.mpr ⟨h, List.forall_mem_singleton.mpr (hadd _ _ _ _ rfl)⟩
  | paint wire color span =>
    rw [serve]
    rcases n.paint_cases wire color span with ⟨_, -, heq⟩ | ⟨-, heq⟩ <;> rw [heq] <;> exact h
  | step => exact List.forall_mem_map.mpr hstep
  | setActive index active =>
    rw [serve]
    cases hok : n.setActive index active with
    | error e => exact h
    | ok m => exact hswitched hok
  | toggleActive index =>
    rw [serve]
    cases hok : n.toggleActive index with
    | error e => exact h
    | ok r => exact hswitched (toggleActive_eq_ok hok)
  | finalize =>
    obtain ⟨layout, heq⟩ := n.exists_serve_finalize
    rw [heq]
    exact h

/-! ### The wires of a network -/

/-- The wires of the input side and of the output side of each combinator. -/
def wiring (n : Network) : List (List String × List String) :=
  n.nodes.map fun node => (node.inputs, node.outputs)

/-- The same wires on the same sides, with the same forest. -/
def SameWires (n m : Network) : Prop := m.coloring = n.coloring ∧ m.wiring = n.wiring

theorem sameWires_step (n : Network) : n.SameWires n.step := by
  refine ⟨coloring_step n, ?_⟩
  rw [wiring, nodes_step, List.map_map]
  rfl

/-- Switching a button changes a combinator, but not its wires. -/
theorem sameWires_of_setActive {index : Nat} {active : Bool}
    (h : n.setActive index active = .ok m) : n.SameWires m := by
  obtain ⟨node, hnode, -, rfl⟩ := setActive_eq_ok h
  refine ⟨rfl, List.ext_getElem? fun i => ?_⟩
  rw [wiring, wiring, List.getElem?_map, List.getElem?_map, List.getElem?_set]
  split
  · next heq =>
    subst heq
    rw [hnode]
    split <;> simp_all
  · rfl

theorem sameWires_of_toggleActive {index : Nat} {active : Bool}
    (h : n.toggleActive index = .ok (active, m)) : n.SameWires m :=
  sameWires_of_setActive (toggleActive_eq_ok h)

theorem sameWires_of_finalize {layout : Layout} (h : n.finalize = .ok (layout, m)) :
    n.SameWires m := by
  rw [finalize] at h
  split at h
  · cases h
    exact ⟨rfl, rfl⟩
  · split at h
    · cases h
      exact ⟨rfl, rfl⟩
    · cases h

/-- Ticks, buttons and the layout have nothing to do with the wires. -/
theorem sameWires_serve {call : NetworkCall} (h : call.isDemand = false) :
    n.SameWires (n.serve call).2 := by
  cases call with
  | add | paint => cases h
  | step => exact sameWires_step n
  | setActive index active =>
    rw [serve]
    cases h : n.setActive index active with
    | error e => exact ⟨rfl, rfl⟩
    | ok m => exact sameWires_of_setActive h
  | toggleActive index =>
    rw [serve]
    cases h : n.toggleActive index with
    | error e => exact ⟨rfl, rfl⟩
    | ok r => exact sameWires_of_toggleActive h
  | finalize =>
    rw [serve]
    cases h : n.finalize with
    | error e => exact ⟨rfl, rfl⟩
    | ok r => exact sameWires_of_finalize h

/-- Only requests for combinators and colors have to do with the coloring. -/
theorem coloring_serve (n : Network) (call : NetworkCall) : (n.serve call).2.coloring =
    match call with
    | .add _ inputs outputs _ => (n.coloring.attachAll [inputs, outputs]).2
    | .paint wire color _ => (n.coloring.paint wire color).2
    | _ => n.coloring := by
  cases call with
  | add c inputs outputs span => exact coloring_add c inputs outputs span
  | paint wire color span => exact coloring_paint wire color span
  | _ => exact (sameWires_serve rfl).1

/-! ### The constraints of a network -/

/-- The coloring is one that calls lead to. -/
private def Colored (n : Network) : Prop := ∃ calls, n.coloring = (replay calls).1

private theorem replay_concat (calls : List ColorCall) (call : ColorCall) :
    (replay (calls ++ [call])).1 = ((replay calls).1.answer call).2 := by
  rw [replay, List.foldl_append, List.foldl_cons, List.foldl_nil, ← replay, replayCall]
  split <;> simp [*]

private theorem Colored.serve (h : n.Colored) (call : NetworkCall) :
    (n.serve call).2.Colored := by
  obtain ⟨calls, hcalls⟩ := h
  rw [Colored, coloring_serve]
  cases call with
  | add _ inputs outputs _ =>
    exact ⟨calls ++ [.attachAll [inputs, outputs]], by rw [replay_concat, ← hcalls]; rfl⟩
  | paint wire color _ =>
    exact ⟨calls ++ [.paint wire color], by rw [replay_concat, ← hcalls]; rfl⟩
  | _ => exact ⟨calls, hcalls⟩

/-- The coloring of a reachable network stands for some constraints. -/
theorem Reachable.represents (h : Reachable n) :
    ∃ constraints, n.coloring.Represents constraints := by
  obtain ⟨calls, hcalls⟩ : n.Colored :=
    h.induction (fun _ => ⟨[], rfl⟩) fun _ call _ hn => hn.serve call
  exact ⟨_, hcalls ▸ represents_replay calls⟩

end Network

end CombinatorNet
