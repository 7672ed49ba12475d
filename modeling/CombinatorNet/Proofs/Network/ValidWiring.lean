import CombinatorNet.Proofs.Layout.Drawing
import CombinatorNet.Proofs.Network.Cache
import CombinatorNet.Proofs.Network.Realizable
import CombinatorNet.Proofs.Network.Wiring

/-!
# Layouts can be wired

What was accepted once stays in force: whatever requests come later, the coloring of the wires
satisfies it. So in every layout the two wires of a side have different colors, and wires that were
colored have the colors that were asked for. As segments have the colors of their wires, no two of
them can be mistaken for one another at a combinator.

The channels are not among the colors of a layout. They are wires all the same if a combinator is
appended or a color given under their names, and then count as having the colors they stand for.

## Main definitions

* `ColorClasses.Enforces` — all colorings that are left satisfy a constraint
* `Layout.coloring` — the colors of the wires and of the two channels
* `Network.ValidWiring` — the wires of a network can be told apart in a layout

## Main results

* `Network.Reachable.enforces_serve` — what is in force stays so
* `Network.Reachable.enforces_sides` — the wires of a side differ
* `Network.validWiring_of_finalize` — layouts can be wired, whatever requests were made before
-/

namespace CombinatorNet

namespace ColorClasses

variable {s : ColorClasses} {constraints : List Constraint} {c : Constraint}

/-- The wires of a constraint are known, and all colorings that are left satisfy it. -/
structure Enforces (s : ColorClasses) (c : Constraint) : Prop where
  knows : ∀ w ∈ c.wires, s.Knows w
  holds : ∀ f, s.Respects f → c.Holds f

theorem Represents.enforces (h : s.Represents constraints) (hc : c ∈ constraints) :
    s.Enforces c :=
  ⟨h.knows c hc, fun f hf => (h.respects f).mp hf c hc⟩

/-- What was in force before a call is in force after it. -/
theorem Represents.enforces_answer (h : s.Represents constraints) (hc : s.Enforces c)
    (call : ColorCall) : (s.answer call).2.Enforces c := by
  have hsettles := h.settles call
  refine ⟨fun w hw => hsettles.knows w (hc.knows w hw), fun f hf => hc.holds f ?_⟩
  by_cases hok : (s.answer call).1 = .ok ()
  · exact (((hsettles.accepts hok).2.2 f).mp hf).1
  · exact (hsettles.keeps hok f).mp hf

/-- The demands of a call that is accepted are in force. -/
theorem Represents.enforces_demands (h : s.Represents constraints) (call : ColorCall)
    (hok : (s.answer call).1 = .ok ()) (hc : c ∈ call.demands) : (s.answer call).2.Enforces c :=
  (h.accepted call hok).enforces (List.mem_append_right _ hc)

/-- The coloring satisfies what is in force. -/
theorem Represents.holdsIn_of_enforces (h : s.Represents constraints) (hc : s.Enforces c) :
    c.HoldsIn s.coloring := by
  obtain ⟨f, hf, hcoloring⟩ := h.exists_solution
  exact (hc.holds f ((h.respects f).mpr hf)).holdsIn fun w hw => hcoloring w (hc.knows w hw)

theorem coloring_channel (s : ColorClasses) (color : Color) :
    s.coloring color.channel = some color := by
  cases color <;> rfl

/-- The channels are not among the colors. -/
theorem get?_colors_channel (s : ColorClasses) (color : Color) :
    s.colors.get? color.channel = none := by
  apply NameMap.get?_ofList_of_notMem
  intro hmem
  obtain ⟨e, he, heq⟩ := List.mem_map.mp hmem
  have hfilter := (List.mem_filter.mp he).2
  rw [heq] at hfilter
  cases color <;> exact absurd hfilter (by decide)

end ColorClasses

/-- The colors of the wires in a layout, and those that the two channels stand for. -/
def Layout.coloring (l : Layout) (wire : String) : Option Color :=
  if wire = redChannel then some .red
  else if wire = greenChannel then some .green
  else l.colors.get? wire

namespace Network

variable {n : Network} {call : NetworkCall} {c : Constraint}

/-! ### Constraints stay in force -/

theorem Reachable.enforces_serve (h : Reachable n) (hc : n.coloring.Enforces c)
    (call : NetworkCall) : (n.serve call).2.coloring.Enforces c := by
  obtain ⟨constraints, hrep⟩ := h.represents
  rw [coloring_serve]
  cases call with
  | add _ inputs outputs _ => exact hrep.enforces_answer hc (.attachAll [inputs, outputs])
  | paint wire color _ => exact hrep.enforces_answer hc (.paint wire color)
  | _ => exact hc

theorem Reachable.enforces_serveAll (h : Reachable n) (hc : n.coloring.Enforces c)
    (calls : List NetworkCall) : (n.serveAll calls).coloring.Enforces c := by
  induction calls generalizing n with
  | nil => exact hc
  | cons call calls ih => exact ih (h.serve call) (h.enforces_serve hc call)

/-- In a reachable network, the wires of a side differ. -/
theorem Reachable.enforces_sides (h : Reachable n) : ∀ sides ∈ n.wiring,
    ∀ side ∈ [sides.1, sides.2], ∀ c ∈ sideDemands side, n.coloring.Enforces c := by
  apply h.induction
  · intro settings sides hsides
    cases hsides
  · intro n call hn ih sides hsides side hside c hc
    rcases n.wiring_serve call with heq | ⟨_, inputs, outputs, _, rfl, hok, heq⟩
    · exact hn.enforces_serve (ih sides (heq ▸ hsides) side hside c hc) call
    · rw [heq] at hsides
      rcases List.mem_append.mp hsides with hsides | hsides
      · exact hn.enforces_serve (ih sides hsides side hside c hc) _
      · -- The sides of the combinator that was appended were accepted with it.
        obtain ⟨constraints, hrep⟩ := hn.represents
        rw [List.mem_singleton.mp hsides] at hside
        rw [coloring_serve]
        exact hrep.enforces_demands (.attachAll [inputs, outputs]) hok
          (List.mem_flatMap.mpr ⟨side, hside, hc⟩)

/-- A wire that is given a color has it from then on. -/
theorem Reachable.enforces_of_painted (h : Reachable n) {wire : String} {color : Color}
    {span : Span} {answer : NetworkAnswer}
    (hok : (n.serve (.paint wire color span)).1 = .ok answer) :
    (n.serve (.paint wire color span)).2.coloring.Enforces (.agree wire color.channel) := by
  obtain ⟨constraints, hrep⟩ := h.represents
  rw [Network.serve] at hok
  rcases n.paint_cases wire color span with ⟨_, -, heq⟩ | ⟨haccepted, -⟩
  · rw [heq] at hok
    cases hok
  · rw [coloring_serve]
    exact hrep.enforces_demands (.paint wire color) haccepted (List.mem_singleton.mpr rfl)

/-! ### Layouts -/

/-- A side carries at most two wires. These differ, and have different colors. Segments have the
colors of their wires, and where two segments of different wires end at one side, they have
different colors. -/
structure ValidWiring (n : Network) (l : Layout) : Prop where
  sides : ∀ node ∈ n.nodes, ∀ side : Side,
    (node.wiresOn side).length ≤ 2 ∧ (node.wiresOn side).Nodup ∧
      ∀ a ∈ node.wiresOn side, ∀ b ∈ node.wiresOn side, a ≠ b →
        (Constraint.differ a b).HoldsIn l.coloring
  segments : ∀ s ∈ l.segments, l.colors.get? s.wire = some s.color
  contacts : ∀ s ∈ l.segments, ∀ t ∈ l.segments, ∀ id side,
    s.Touches (.combinator id side) → t.Touches (.combinator id side) →
      s.wire ≠ t.wire → s.color ≠ t.color

/-- The layout of a reachable network, however it was asked for. -/
theorem Reachable.freshLayout_of_finalize (h : Reachable n) {l : Layout} {m : Network}
    (hlaid : n.finalize = .ok (l, m)) : n.freshLayout = .ok l := by
  have hfinal := h.keepsFresh.finalize
  rw [hlaid] at hfinal
  cases hfresh : n.freshLayout with
  | error fault => rw [hfresh] at hfinal; cases hfinal
  | ok l' => rw [hfresh] at hfinal; cases hfinal; rfl

/-- The colors of a layout are those of the wires. -/
theorem coloring_of_freshLayout {l : Layout} (h : n.freshLayout = .ok l) (wire : String) :
    l.coloring wire = n.coloring.coloring wire := by
  rw [Layout.coloring, ColorClasses.coloring, colors_of_freshLayout h]
  rfl

/-- What two wires of a side are asked for, one way round or the other. -/
theorem differ_mem_sideDemands {side : List String} {a b : String} (hlen : side.length ≤ 2)
    (ha : a ∈ side) (hb : b ∈ side) (hne : a ≠ b) :
    .differ a b ∈ sideDemands side ∨ .differ b a ∈ sideDemands side := by
  rcases side with _ | ⟨x, _ | ⟨y, _ | ⟨z, rest⟩⟩⟩
  · cases ha
  · rw [List.mem_singleton] at ha hb
    exact absurd (ha.trans hb.symm) hne
  · simp only [List.mem_cons, List.not_mem_nil, or_false] at ha hb
    have hmem : .differ x y ∈ sideDemands [x, y] := List.mem_singleton.mpr rfl
    rcases ha with rfl | rfl <;> rcases hb with rfl | rfl
    · exact absurd rfl hne
    · exact .inl hmem
    · exact .inr hmem
    · exact absurd rfl hne
  · simp at hlen

theorem Reachable.differ_of_mem_wiresOn (h : Reachable n) {node : Node} (hnode : node ∈ n.nodes)
    (side : Side) : (node.wiresOn side).length ≤ 2 ∧ (node.wiresOn side).Nodup ∧
      ∀ a ∈ node.wiresOn side, ∀ b ∈ node.wiresOn side, a ≠ b →
        (Constraint.differ a b).HoldsIn n.coloring.coloring := by
  obtain ⟨constraints, hrep⟩ := h.represents
  have hsides : (node.inputs, node.outputs) ∈ n.wiring := List.mem_map_of_mem hnode
  have hside : node.wiresOn side ∈ [node.inputs, node.outputs] := by
    cases side <;> simp [Node.wiresOn]
  obtain ⟨hlen, hnodup⟩ := h.nodup_of_mem_wiring _ hsides _ hside
  refine ⟨hlen, hnodup, fun a ha b hb hne => ?_⟩
  rcases differ_mem_sideDemands hlen ha hb hne with hmem | hmem
  · exact hrep.holdsIn_of_enforces (h.enforces_sides _ hsides _ hside _ hmem)
  · obtain ⟨c, d, hc, hd, hcd⟩ :=
      hrep.holdsIn_of_enforces (h.enforces_sides _ hsides _ hside _ hmem)
    exact ⟨d, c, hd, hc, hcd.symm⟩

/-- A segment has the color of its wire, which is no channel, as these are not among the colors. -/
theorem coloring_of_mem_segments {l : Layout} (hl : n.freshLayout = .ok l) {s : Segment}
    (hs : s ∈ l.segments) : l.coloring s.wire = some s.color := by
  have hget := Layout.get?_colors_of_mem_segments hl hs
  have hne : ∀ color : Color, s.wire ≠ color.channel := by
    intro color heq
    rw [colors_of_freshLayout hl, heq, colors, ColorClasses.get?_colors_channel] at hget
    cases hget
  have hred : s.wire ≠ redChannel := hne .red
  have hgreen : s.wire ≠ greenChannel := hne .green
  rw [Layout.coloring, if_neg hred, if_neg hgreen, hget]

theorem Reachable.validWiring (h : Reachable n) {l : Layout} (hl : n.freshLayout = .ok l) :
    n.ValidWiring l := by
  have hcoloring : n.coloring.coloring = l.coloring :=
    funext fun wire => (coloring_of_freshLayout hl wire).symm
  have hsides := fun node (hnode : node ∈ n.nodes) => h.differ_of_mem_wiresOn hnode
  rw [hcoloring] at hsides
  refine ⟨hsides, fun s hs => Layout.get?_colors_of_mem_segments hl hs,
    fun s hs t ht id side hst htt hne heq => ?_⟩
  -- Both wires are on the side where the segments meet, so they have different colors.
  obtain ⟨node, hnode, hswire⟩ := mem_wiresOn_of_touches hl hs hst
  obtain ⟨node', hnode', htwire⟩ := mem_wiresOn_of_touches hl ht htt
  obtain rfl : node = node' := Option.some_inj.mp (hnode.symm.trans hnode')
  obtain ⟨-, -, hdiffer⟩ := hsides node (List.mem_of_getElem? hnode) side
  obtain ⟨c, d, hc, hd, hcd⟩ := hdiffer _ hswire _ htwire hne
  rw [coloring_of_mem_segments hl hs, Option.some_inj] at hc
  rw [coloring_of_mem_segments hl ht, Option.some_inj] at hd
  exact hcd (hc.symm.trans (heq.trans hd))

/-- A wire that has to agree with a channel has its color in the layout. -/
theorem Reachable.coloring_of_enforces (h : Reachable n) {l : Layout} (hl : n.freshLayout = .ok l)
    {wire : String} {color : Color} (hc : n.coloring.Enforces (.agree wire color.channel)) :
    l.coloring wire = some color := by
  obtain ⟨constraints, hrep⟩ := h.represents
  obtain ⟨c, d, hwire, hchannel, rfl⟩ := hrep.holdsIn_of_enforces hc
  rw [ColorClasses.coloring_channel] at hchannel
  rw [coloring_of_freshLayout hl, hwire, hchannel]

/-- Only statements without instances make a network. -/
theorem stays_of_performEach {m : Network} {statements : List Statement}
    (h : n.performEach statements = .ok m) : ∀ s ∈ statements, s.Stays := by
  induction statements generalizing n with
  | nil => exact List.forall_mem_nil _
  | cons s rest ih =>
    obtain ⟨n', hperform, hrest⟩ := exists_of_performEach_cons h
    refine List.forall_mem_cons.mpr ⟨fun name bindings hr => ?_, ih hrest⟩
    rw [perform, hr] at hperform
    cases hperform

/-! ### Any requests -/

/-- The network is built from statements, or compiled from a program that is flattened to them. -/
def ComesFrom (n : Network) (statements : List Statement) : Prop :=
  ∃ settings, ofStatements statements settings = .ok n ∨
    ∃ (p : Program) (depth : Nat),
      p.flatten depth = .ok statements ∧ p.compile ⟨depth, settings⟩ = .ok n

/-- Compiling a program only adds that the layout is asked for. -/
theorem ComesFrom.exists_built {statements : List Statement} (h : n.ComesFrom statements) :
    ∃ settings built, ofStatements statements settings = .ok built ∧
      (n = built ∨ n = (built.serve .finalize).2) := by
  obtain ⟨settings, hbuilt | ⟨p, depth, hflat, hcompile⟩⟩ := h
  · exact ⟨settings, n, hbuilt, .inl rfl⟩
  · obtain ⟨statements', built, hflat', hbuilt, heq⟩ := exists_ofStatements_of_compile hcompile
    rw [hflat] at hflat'
    cases hflat'
    exact ⟨settings, built, hbuilt, .inr heq⟩

theorem ComesFrom.reachable {statements : List Statement} (h : n.ComesFrom statements) :
    Reachable n := by
  obtain ⟨settings, built, hbuilt, rfl | rfl⟩ := h.exists_built
  · exact .ofStatements hbuilt
  · exact (Reachable.ofStatements hbuilt).serve .finalize

/-- Wires that statements color have their colors in the network. -/
theorem ComesFrom.enforces {statements : List Statement} (h : n.ComesFrom statements)
    {s : Statement} (hs : s ∈ statements) {e : String × Color} (he : e ∈ s.request.paints) :
    n.coloring.Enforces (.agree e.1 e.2.channel) := by
  have hdemand : .agree e.1 e.2.channel ∈ s.request.demands :=
    List.mem_append_right _ (List.mem_map_of_mem he)
  obtain ⟨settings, built, hbuilt, hn⟩ := h.exists_built
  have henforces : built.coloring.Enforces (.agree e.1 e.2.channel) :=
    (represents_of_ofStatements (stays_of_performEach hbuilt) hbuilt).enforces
      (List.mem_append_right _ (List.mem_flatMap.mpr ⟨s, hs, hdemand⟩))
  rcases hn with rfl | rfl
  · exact henforces
  · exact (Reachable.ofStatements hbuilt).enforces_serve henforces .finalize

/-- Whatever requests are made to a network of some statements, served or refused, a layout that it
has afterwards can be wired. In its colors, with the channels having those they stand for, a wire
has the color that one of the statements gave it, and the one that a request gave it if this was
served. -/
theorem validWiring_of_finalize {statements : List Statement} (h : n.ComesFrom statements)
    (calls : List NetworkCall) {l : Layout} {m : Network}
    (hlaid : (n.serveAll calls).finalize = .ok (l, m)) :
    (n.serveAll calls).ValidWiring l ∧
    (∀ s ∈ statements, ∀ e ∈ s.request.paints, l.coloring e.1 = some e.2) ∧
    ∀ before wire color span answer after, calls = before ++ .paint wire color span :: after →
      ((n.serveAll before).serve (.paint wire color span)).1 = .ok answer →
      l.coloring wire = some color := by
  have hreachable := h.reachable.serveAll calls
  have hl := hreachable.freshLayout_of_finalize hlaid
  refine ⟨hreachable.validWiring hl, fun s hs e he => ?_, ?_⟩
  · have hpainted := h.reachable.enforces_serveAll (h.enforces hs he) calls
    exact hreachable.coloring_of_enforces hl hpainted
  · intro before wire color span answer after hcalls hok
    have hbefore := h.reachable.serveAll before
    have hpainted := (hbefore.serve _).enforces_serveAll (hbefore.enforces_of_painted hok) after
    rw [← serveAll_cons, ← serveAll_append, ← hcalls] at hpainted
    exact hreachable.coloring_of_enforces hl hpainted

/-- A wire that is red by a statement, and then shares a side with another one. A request for the
other color is refused on the way. -/
def sharedSide : List NetworkCall :=
  [.paint "A" .green .nowhere, .add (.ofSignal "x") ["A", "B"] [] .nowhere,
    .paint "B" .green .nowhere]

theorem validWiring_of_finalize_sharedSide : ∃ (n m : Network) (l : Layout),
    n.ComesFrom redDisplay ∧ (n.serveAll sharedSide).finalize = .ok (l, m) ∧
      (n.serveAll sharedSide).ValidWiring l ∧ l.coloring "A" = some .red ∧
      l.coloring "B" = some .green := by
  have hfacts : ((ofStatements redDisplay {}).map fun n =>
      (((n.serveAll (sharedSide.take 2)).serve (.paint "B" .green .nowhere)).1.toOption.isSome,
        (n.serveAll sharedSide).finalize.toOption.isSome)) = .ok (true, true) := by decide +kernel
  cases hn : ofStatements redDisplay {} with
  | error e => rw [hn] at hfacts; cases hfacts
  | ok n =>
    rw [hn] at hfacts
    obtain ⟨hserved, hlaid⟩ := Prod.mk.inj (Except.ok.inj hfacts)
    have hcomes : n.ComesFrom redDisplay := ⟨{}, .inl hn⟩
    cases hfinal : (n.serveAll sharedSide).finalize with
    | error e => rw [hfinal] at hlaid; cases hlaid
    | ok r =>
      cases hanswer : ((n.serveAll (sharedSide.take 2)).serve (.paint "B" .green .nowhere)).1 with
      | error e => rw [hanswer] at hserved; cases hserved
      | ok answer =>
        obtain ⟨hvalid, hstatements, hcalls⟩ := validWiring_of_finalize hcomes sharedSide hfinal
        exact ⟨n, r.2, r.1, hcomes, hfinal, hvalid,
          hstatements _ List.mem_cons_self ("A", .red) (List.mem_singleton.mpr rfl),
          hcalls (sharedSide.take 2) "B" .green .nowhere answer [] rfl hanswer⟩

/-- The red channel is made red, and shares a side with a wire. -/
def channelSide : List NetworkCall :=
  [.paint redChannel .red .nowhere, .add (.ofHeading "x" 1) [redChannel, "A"] [] .nowhere]

/-- A channel has no color in a layout, even where it was given one and is on a side. -/
theorem channelSide_uncolored : ∃ (n m : Network) (l : Layout), n.ComesFrom [] ∧
    (n.serve (.paint redChannel .red .nowhere)).1 = .ok .done ∧
    (n.serveAll channelSide).finalize = .ok (l, m) ∧
    (n.serveAll channelSide).nodes.map (·.inputs) = [[redChannel, "A"]] ∧
    l.colors.get? redChannel ≠ some .red ∧
    ¬ (Constraint.differ redChannel "A").HoldsIn l.colors.get? := by
  have hfacts : ((empty {}).serveAll channelSide).finalize.toOption.map
      (·.1.colors.get? redChannel) = some none := by decide +kernel
  cases hfinal : ((empty {}).serveAll channelSide).finalize with
  | error e => rw [hfinal] at hfacts; cases hfacts
  | ok r =>
    rw [hfinal] at hfacts
    have hnone : r.1.colors.get? redChannel = none := Option.some_inj.mp hfacts
    have hnodes : ((empty {}).serveAll channelSide).nodes.map (·.inputs) = [[redChannel, "A"]] := by
      decide +kernel
    refine ⟨empty {}, r.2, r.1, ⟨{}, .inl rfl⟩, rfl, hfinal, hnodes, ?_, fun hdiffer => ?_⟩
    · rw [hnone]
      exact fun heq => by cases heq
    · obtain ⟨c, d, hred, -⟩ := hdiffer
      rw [hnone] at hred
      cases hred

end Network

end CombinatorNet
