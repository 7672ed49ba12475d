import CombinatorNet.Proofs.Coloring.Apart
import CombinatorNet.Proofs.Layout.Appending
import CombinatorNet.Proofs.Network.Uncolored
import CombinatorNet.Proofs.Network.ValidWiring

/-!
# Appending a combinator

A combinator that shares no wire with the rest of a network is laid out behind it, and nothing else
changes: its wires have not been met before, so they are colored after all others, and the layout
places it after all others.

A channel has been met in any network, but is no wire of it as long as it is neither at a combinator
nor given a color. It has no color in a layout, so it must not join the sides of the combinator.

## Main definitions

* `Network.MetOnly` — the wires met so far are channels, or at combinators, or were given a color
* `Network.Untouched` — a wire that nothing in the history of a network is about

## Main results

* `Network.appends_site` — appending a combinator with new wires is appending to the site
* `Network.appends_of_add` — what the layout becomes
-/

namespace CombinatorNet

/-! ### The requests of statements -/

/-- A statement gives colors to the wires that it lists for them. -/
theorem Statement.exists_paints_of_mem_calls {s : Statement} {wire : String} {color : Color}
    {span : Span} (h : .paint wire color span ∈ s.calls) : ∃ e ∈ s.request.paints, e.1 = wire := by
  rw [calls] at h
  cases hr : s.request with
  | paint color' wires =>
    rw [hr] at h
    obtain ⟨w, hw, heq⟩ := List.mem_map.mp h
    cases heq
    exact ⟨_, List.mem_map_of_mem hw, rfl⟩
  | binary inputs expr outputs =>
    rw [hr] at h
    cases hexpr : Combinator.ofExpr expr <;> simp [hexpr] at h
  | constant | display | label | instantiate =>
    rw [hr] at h
    simp at h

namespace Network

variable {n m : Network} {statements : List Statement} {calls : List NetworkCall} {wire : String}

/-- The network comes from requests, and these give colors to the wires that the statements list for
them. -/
theorem ComesFrom.exists_calls (h : n.ComesFrom statements) :
    ∃ settings calls, n = (empty settings).serveAll calls ∧
      ∀ wire color span, .paint wire color span ∈ calls →
        ∃ s ∈ statements, ∃ e ∈ s.request.paints, e.1 = wire := by
  have hpaints : ∀ wire color span, .paint wire color span ∈ statements.flatMap Statement.calls →
      ∃ s ∈ statements, ∃ e ∈ s.request.paints, e.1 = wire := by
    intro wire color span hmem
    obtain ⟨s, hs, hmem⟩ := List.mem_flatMap.mp hmem
    exact ⟨s, hs, Statement.exists_paints_of_mem_calls hmem⟩
  obtain ⟨settings, built, hbuilt, rfl | rfl⟩ := h.exists_built
  · exact ⟨settings, _, serveAll_of_performEach hbuilt, hpaints⟩
  · refine ⟨settings, statements.flatMap Statement.calls ++ [.finalize], ?_, ?_⟩
    · rw [serveAll_append, ← serveAll_of_performEach hbuilt]
      rfl
    · intro wire color span hmem
      rw [List.mem_append, List.mem_singleton] at hmem
      exact hpaints wire color span (hmem.resolve_right nofun)

/-! ### The wires met so far -/

/-- The wires met so far are the channels, those at combinators, and some more. -/
def MetOnly (n : Network) (more : String → Prop) : Prop :=
  ∀ wire, n.coloring.Knows wire →
    (∃ color : Color, wire = color.channel) ∨
      (∃ sides ∈ n.wiring, wire ∈ sides.1 ++ sides.2) ∨ more wire

theorem metOnly_empty (settings : LayoutSettings) (more : String → Prop) :
    (empty settings).MetOnly more := by
  intro wire hknown
  have hmem := (ColorClasses.represents_start.valid.mem_order wire).mpr hknown
  have horder : ColorClasses.start.order.toList = [redChannel, greenChannel] := order_replay []
  rw [horder, List.mem_cons, List.mem_singleton] at hmem
  rcases hmem with rfl | rfl
  · exact .inl ⟨.red, rfl⟩
  · exact .inl ⟨.green, rfl⟩

/-- A request meets the wires of its combinator, if it is accepted, or the one that it gives a color
to, in any case. -/
theorem MetOnly.serve {more : String → Prop} (h : n.MetOnly more) (hn : Reachable n)
    {call : NetworkCall} (hcall : ∀ wire color span, call = .paint wire color span → more wire) :
    (n.serve call).2.MetOnly more := by
  obtain ⟨constraints, hrep⟩ := hn.represents
  intro wire hknown
  have hold : n.coloring.Knows wire → (∃ color : Color, wire = color.channel) ∨
      (∃ sides ∈ (n.serve call).2.wiring, wire ∈ sides.1 ++ sides.2) ∨ more wire := fun hknown =>
    (h wire hknown).imp_right <| Or.imp_left fun ⟨sides, hsides, hwire⟩ =>
      ⟨sides, (n.wiring_isPrefix_serve call).mem hsides, hwire⟩
  rw [coloring_serve] at hknown
  cases call with
  | add c inputs outputs span =>
    rcases (hrep.knows_answer_iff (.attachAll [inputs, outputs])).mp hknown with hknown | hnew
    · exact hold hknown
    · rw [Network.serve]
      rcases n.add_cases c inputs outputs span with ⟨_, hno, -⟩ | ⟨hok, heq⟩
      · rw [ColorClasses.answer, hno] at hnew
        cases hnew
      · rw [ColorClasses.answer, hok] at hnew
        refine .inr (.inl ⟨(inputs, outputs), ?_, by
          simpa [ColorCall.registers, Except.isOk, Except.toBool] using hnew⟩)
        rw [heq, wiring, List.map_append]
        exact List.mem_append_right _ (List.mem_singleton.mpr rfl)
  | paint w color span =>
    rcases (hrep.knows_answer_iff (.paint w color)).mp hknown with hknown | hnew
    · exact hold hknown
    · rw [List.mem_singleton.mp hnew]
      exact .inr (.inr (hcall w color span rfl))
  | _ => exact hold hknown

theorem MetOnly.serveAll {more : String → Prop} (h : n.MetOnly more) (hn : Reachable n)
    (hcalls : ∀ wire color span, .paint wire color span ∈ calls → more wire) :
    (n.serveAll calls).MetOnly more := by
  induction calls generalizing n with
  | nil => exact h
  | cons call calls ih =>
    refine ih (h.serve hn fun wire color span heq => ?_) (hn.serve call) fun wire color span hmem => ?_
    · exact hcalls wire color span (heq ▸ List.mem_cons_self)
    · exact hcalls wire color span (List.mem_cons_of_mem _ hmem)

/-- No combinator of a network has a wire, and neither the statements that the network comes from
nor the requests that it has got, served or refused, give the wire a color. -/
structure Untouched (n : Network) (statements : List Statement) (calls : List NetworkCall)
    (wire : String) : Prop where
  apart : ∀ node ∈ (n.serveAll calls).nodes, wire ∉ node.inputs ++ node.outputs
  statements : ∀ s ∈ statements, ∀ e ∈ s.request.paints, e.1 ≠ wire
  calls : ∀ color span, .paint wire color span ∉ calls

/-- Such a wire has not been met, unless it is a channel. -/
theorem Untouched.channel_of_knows (h : n.Untouched statements calls wire)
    (hn : n.ComesFrom statements) (hknown : (n.serveAll calls).coloring.Knows wire) :
    ∃ color : Color, wire = color.channel := by
  obtain ⟨settings, calls', rfl, hcalls'⟩ := hn.exists_calls
  have hempty : Reachable (empty settings) :=
    .ofStatements (rfl : Network.ofStatements [] settings = .ok (empty settings))
  have hmet : ((empty settings).serveAll (calls' ++ calls)).MetOnly fun wire =>
      (∃ s ∈ statements, ∃ e ∈ s.request.paints, e.1 = wire) ∨
        ∃ color span, .paint wire color span ∈ calls :=
    (metOnly_empty settings _).serveAll hempty fun wire color span hmem =>
      (List.mem_append.mp hmem).imp (hcalls' wire color span) fun hmem => ⟨color, span, hmem⟩
  rw [serveAll_append] at hmet
  rcases hmet wire hknown with hchannel | ⟨sides, hsides, hwire⟩ | ⟨s, hs, e, he, heq⟩ |
    ⟨color, span, hmem⟩
  · exact hchannel
  · obtain ⟨node, hnode, rfl⟩ := List.mem_map.mp hsides
    exact absurd hwire (h.apart node hnode)
  · exact absurd heq (h.statements s hs e he)
  · exact absurd hmem (h.calls color span)

/-! ### The layout -/

variable {c : Combinator} {inputs outputs : List String} {span : Span} {id : Nat}

/-- A combinator that is accepted is behind the others, and the layout is gone. -/
theorem add_eq_ok (h : n.add c inputs outputs span = (.ok id, m)) :
    id = n.nodes.length ∧ (n.coloring.attachAll [inputs, outputs]).1 = .ok () ∧
      m = { n with
        nodes := n.nodes ++ [⟨c, inputs, outputs, span, ∅⟩]
        coloring := (n.coloring.attachAll [inputs, outputs]).2
        layout := none } := by
  rcases n.add_cases c inputs outputs span with ⟨_, -, heq⟩ | ⟨hok, heq⟩ <;> rw [heq] at h <;>
    cases h
  exact ⟨rfl, hok, rfl⟩

theorem mem_of_mem_wires_of_sideDemands {side : List String} {d : Constraint}
    (hd : d ∈ sideDemands side) (hwire : wire ∈ d.wires) : wire ∈ side := by
  obtain ⟨a, b, rfl, rfl⟩ := mem_sideDemands_iff.mp hd
  exact hwire

/-- Other wires keep their colors if those of the combinator have not been met. -/
theorem Reachable.get?_colors_add (hn : Reachable n)
    (hok : (n.coloring.attachAll [inputs, outputs]).1 = .ok ())
    (hnew : ∀ wire ∈ inputs ++ outputs, n.coloring.Knows wire →
      ∃ color : Color, wire = color.channel) (hwire : wire ∉ inputs ++ outputs) :
    (n.coloring.attachAll [inputs, outputs]).2.colors.get? wire = n.coloring.colors.get? wire := by
  obtain ⟨constraints, hrep⟩ := hn.represents
  have hanswer : (n.coloring.answer (.attachAll [inputs, outputs])).1 = .ok () := hok
  refine hrep.get?_colors_answer hanswer (fun d hd w hw hknown => ?_)
    (by simpa [ColorCall.registers] using hwire)
  obtain ⟨side, hside, hd⟩ := List.mem_flatMap.mp hd
  have hmem := mem_of_mem_wires_of_sideDemands hd hw
  refine hnew w ?_ hknown
  rw [List.mem_cons, List.mem_singleton] at hside
  rcases hside with rfl | rfl
  · exact List.mem_append_left _ hmem
  · exact List.mem_append_right _ hmem

/-- The site of a network with one more combinator, whose wires are at no other one. -/
theorem appends_site (h : n.add c inputs outputs span = (.ok id, m))
    (hapart : ∀ node ∈ n.nodes, ∀ wire ∈ inputs ++ outputs, wire ∉ node.inputs ++ node.outputs)
    (hcolors : ∀ wire, wire ∉ inputs ++ outputs → m.colors.get? wire = n.colors.get? wire) :
    (n.site n.settings n.colors).Appends (Node.connections ⟨c, inputs, outputs, span, ∅⟩)
      (m.site m.settings m.colors) := by
  have hwires := Node.map_wire_connections ⟨c, inputs, outputs, span, ∅⟩
  obtain ⟨-, -, hm⟩ := add_eq_ok h
  refine ⟨by rw [hm]; rfl, by rw [hm]; rfl, ?_, fun wire hwire => ?_, fun wire hwire => ?_⟩
  · rw [hm]
    show (List.map _ (n.nodes ++ [_])).toArray = (List.map _ n.nodes).toArray.push _
    rw [List.map_append, List.push_toArray]
    rfl
  · rw [hwires] at hwire
    exact hcolors wire hwire
  · rw [hwires] at hwire
    refine List.eq_nil_iff_forall_not_mem.mpr fun contact hcontact => ?_
    obtain ⟨connections, hmem, conn, hconn, rfl⟩ := Site.exists_connection_of_contacts hcontact
    obtain ⟨sides, hsides, hside⟩ := exists_sides_of_connection hmem hconn
    obtain ⟨node, hnode, rfl⟩ := List.mem_map.mp hsides
    exact hapart node hnode _ hwire hside

theorem finalize_of_layout {l : Layout} (hnone : n.layout = none) (h : n.freshLayout = .ok l) :
    n.finalize = .ok (l, { n with layout := some l }) := by
  rw [freshLayout] at h
  rw [finalize, hnone]
  simp only [h]

/-- Whatever has been requested of a network of some statements: where it has a layout, and a
combinator is accepted whose wires are untouched and of which no channel is on both sides, the
network has a layout again. This is the one before with the combinator behind it. -/
theorem appends_of_add (hn : n.ComesFrom statements) {l : Layout} {m' : Network}
    (hlaid : (n.serveAll calls).finalize = .ok (l, m'))
    (hadded : (n.serveAll calls).add c inputs outputs span = (.ok id, m))
    (hwires : ∀ wire ∈ inputs ++ outputs, n.Untouched statements calls wire)
    (hchannels : ∀ color : Color, color.channel ∈ inputs → color.channel ∉ outputs) :
    id = (n.serveAll calls).nodes.length ∧
      ∃ l', m.finalize = .ok (l', { m with layout := some l' }) ∧ l.Appends id inputs outputs l' := by
  have hreachable := hn.reachable.serveAll calls
  have hl := hreachable.freshLayout_of_finalize hlaid
  obtain ⟨hid, hok, hm⟩ := add_eq_ok hadded
  have hreachable' : Reachable m := by
    have hserve := hreachable.serve (.add c inputs outputs span)
    rwa [Network.serve, hadded] at hserve
  have hmem : ⟨c, inputs, outputs, span, ∅⟩ ∈ m.nodes := by
    rw [hm]
    exact List.mem_append_right _ (List.mem_singleton.mpr rfl)
  have hcolors : ∀ wire, wire ∉ inputs ++ outputs →
      m.colors.get? wire = (n.serveAll calls).colors.get? wire := by
    intro wire hwire
    rw [hm]
    exact hreachable.get?_colors_add hok
      (fun w hw hknown => (hwires w hw).channel_of_knows hn hknown) hwire
  have happends := appends_site hadded
    (fun node hnode wire hwire => (hwires wire hwire).apart node hnode) hcolors
  have hnodup : ∀ side ∈ [inputs, outputs], side.Nodup := fun side hside =>
    (hreachable'.nodup_of_mem_wiring _ (List.mem_map_of_mem hmem) side hside).2
  obtain ⟨l', hl', hlayout⟩ := happends.layout (width_site_pos _ _ _)
    (hnodup inputs (by simp)) (hnodup outputs (by simp))
    (fun wire hin hout => hreachable'.isSome_get?_colors (List.mem_map_of_mem hmem)
      (List.mem_append_left _ hin) fun color heq => hchannels color (heq ▸ hin) (heq ▸ hout)) hl
  rw [size_connections_site, ← hid] at hlayout
  exact ⟨hid, l', finalize_of_layout (by rw [hm]) hl', hlayout⟩

/-- A second combinator on the wire of the display, and a tick. -/
def driven : List NetworkCall := [.add (.ofHeading "x" 1) [] ["A"] .nowhere, .step]

/-- A combinator that joins its sides, behind two others that share a wire. -/
theorem appends_of_add_driven : ∃ (n m m' m'' : Network) (l l' : Layout),
    n.ComesFrom redDisplay ∧ (n.serveAll driven).finalize = .ok (l, m') ∧
      (n.serveAll driven).add (.ofHeading "y" 1) ["B", "C"] ["C"] .nowhere = (.ok 2, m) ∧
      m.finalize = .ok (l', m'') ∧ l.segments.size = 1 ∧ l.Appends 2 ["B", "C"] ["C"] l' := by
  have hfacts : ((ofStatements redDisplay {}).map fun n =>
      ((n.serveAll driven).finalize.toOption.map (·.1.segments.size),
        ((n.serveAll driven).add (.ofHeading "y" 1) ["B", "C"] ["C"] .nowhere).1.toOption,
        (n.serveAll driven).nodes.map fun node => node.inputs ++ node.outputs)) =
      .ok (some 1, some 2, [["A"], ["A"]]) := by decide +kernel
  obtain ⟨n, hn, -, hfacts⟩ := exists_of_map_ofStatements hfacts
  simp only [Prod.mk.injEq] at hfacts
  obtain ⟨hlaid, hadded, hnodes⟩ := hfacts
  have hcomes : n.ComesFrom redDisplay := ⟨{}, .inl hn⟩
  have huntouched : ∀ wire ∈ ["B", "C"] ++ ["C"], n.Untouched redDisplay driven wire := by
    intro wire hwire
    have hne : wire ≠ "A" := by
      rintro rfl
      exact absurd hwire (by decide)
    refine ⟨fun node hnode hmem => hne ?_, ?_, fun color span hmem => ?_⟩
    · have hside := List.mem_map_of_mem (f := fun node => node.inputs ++ node.outputs) hnode
      rw [hnodes] at hside
      have hwires : node.inputs ++ node.outputs = ["A"] := by simpa using hside
      rw [hwires] at hmem
      exact List.mem_singleton.mp hmem
    · simpa [redDisplay, Request.paints] using hne.symm
    · simp [driven] at hmem
  cases hfinal : (n.serveAll driven).finalize with
  | error e => rw [hfinal] at hlaid; cases hlaid
  | ok r =>
    rw [hfinal] at hlaid
    rcases hadd : (n.serveAll driven).add (.ofHeading "y" 1) ["B", "C"] ["C"] .nowhere with
      ⟨_ | id, m⟩ <;> rw [hadd] at hadded <;> cases hadded
    obtain ⟨-, l', hl', happends⟩ :=
      appends_of_add hcomes hfinal hadd huntouched fun color => by cases color <;> decide
    exact ⟨n, m, r.2, _, r.1, l', hcomes, hfinal, hadd, hl', Option.some_inj.mp hlaid, happends⟩

/-- A combinator that reads a channel and writes to it is accepted. Then there is no layout, although
there was one before, and the channel was untouched. -/
theorem exists_add_uncolored : ∃ (n m m' : Network) (l : Layout), n.ComesFrom [] ∧
    (n.serveAll []).finalize = .ok (l, m') ∧
    (n.serveAll []).add (.ofHeading "x" 1) [redChannel] [redChannel] .nowhere = (.ok 0, m) ∧
    (∀ wire ∈ [redChannel] ++ [redChannel], n.Untouched [] [] wire) ∧
    m.finalize = .error (.layout (.uncolored redChannel)) := by
  have hlaid : (empty {}).finalize.toOption.isSome = true := by decide +kernel
  have hadded : ((empty {}).add (.ofHeading "x" 1) [redChannel] [redChannel] .nowhere).1 = .ok 0 := by
    decide +kernel
  cases hfinal : (empty {}).finalize with
  | error e => rw [hfinal] at hlaid; cases hlaid
  | ok r =>
    exact ⟨empty {}, channelLoop, r.2, r.1, ⟨{}, .inl rfl⟩, hfinal, Prod.ext hadded rfl,
      fun wire _ => ⟨List.forall_mem_nil _, List.forall_mem_nil _, fun _ _ => List.not_mem_nil⟩,
      finalize_channelLoop⟩

end Network

end CombinatorNet
