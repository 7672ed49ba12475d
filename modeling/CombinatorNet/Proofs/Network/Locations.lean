import CombinatorNet.Proofs.Coloring.Preference
import CombinatorNet.Proofs.Language.Nesting
import CombinatorNet.Proofs.Language.Places
import CombinatorNet.Proofs.Layout.Colored
import CombinatorNet.Proofs.Network.Nodes
import CombinatorNet.Proofs.Network.Realizable
import CombinatorNet.Proofs.Network.Wiring

/-!
# Where compiling fails

Every part of a program keeps the place that it was read from: a flattened statement has that of the
statement of the template, and the colors know no places, but an error about them gets that of the
statement. So whatever part of compiling fails, the error points into the source text, with the
exception of the layout, which can only become too large.

## Main definitions

* `FailsIn` — the errors of a result lie in a text

## Main results

* `Program.PlacedIn.failsIn_flatten`, `Program.PlacedIn.flatten` — a flattened program lies in the
  text of the program, and so does an error
* `Network.Reachable.knows_of_mem_wiring` — the wires at combinators have been met
* `Network.Reachable.colored_site` — so they have colors
* `compile_error_located` — where compiling fails
-/

namespace CombinatorNet

variable {source : String}

section FailsIn

variable {α β : Type} {x : Except NetworkError α}

/-- Where a result is an error, the error has a place in a text. -/
def FailsIn (source : String) (x : Except NetworkError α) : Prop :=
  ∀ e, x = .error e → e.PlacedIn source

theorem failsIn_ok (a : α) : FailsIn source (.ok a : Except NetworkError α) := by
  intro e he
  cases he

theorem failsIn_error {e : NetworkError} (h : e.PlacedIn source) :
    FailsIn source (.error e : Except NetworkError α) := by
  intro e' he
  cases he
  exact h

theorem FailsIn.bind {f : α → Except NetworkError β} (hx : FailsIn source x)
    (hf : ∀ a, FailsIn source (f a)) : FailsIn source (x >>= f) := by
  cases x with
  | error e => exact failsIn_error (hx e rfl)
  | ok a => exact hf a

theorem FailsIn.map (hx : FailsIn source x) (f : α → β) : FailsIn source (x.map f) := by
  cases x with
  | error e => exact failsIn_error (hx e rfl)
  | ok a => exact failsIn_ok (f a)

end FailsIn

/-! ### Flattening -/

variable {scope : Scope} {counts : InstanceCounts} {p : Program}

theorem Template.failsIn_bind (t : Template) {bindings : List Binding}
    (h : ∀ b ∈ bindings, b.span.LiesIn source) (bound : NameMap Bound) :
    FailsIn source (t.bind scope bindings bound) := by
  induction bindings generalizing bound with
  | nil => exact failsIn_ok bound
  | cons b rest ih =>
    obtain ⟨hb, hrest⟩ := List.forall_mem_cons.mp h
    rw [bind]
    split
    · exact failsIn_error ⟨b.span, rfl, hb⟩
    · split
      · exact failsIn_error ⟨b.span, rfl, hb⟩
      · exact ih hrest _

/-- An instance that cannot be put in place is blamed in the text, if it was asked for there. -/
def Instantiation.FailsIn (source : String) (enter : Instantiation) : Prop :=
  ∀ name bindings span scope counts, (∀ b ∈ bindings, b.span.LiesIn source) →
    span.LiesIn source → CombinatorNet.FailsIn source (enter name bindings span scope counts)

theorem Instantiation.FailsIn.flattenBody {enter : Instantiation} (henter : enter.FailsIn source)
    {body : List Statement} (h : ∀ s ∈ body, s.PlacedIn source) (counts : InstanceCounts) :
    CombinatorNet.FailsIn source (flattenBody enter scope body counts) := by
  induction body generalizing counts with
  | nil => exact failsIn_ok _
  | cons s rest ih =>
    obtain ⟨hs, hrest⟩ := List.forall_mem_cons.mp h
    obtain ⟨name, bindings, hr⟩ | hstays := s.opens_or_stays
    · rw [flattenBody_cons_eq_of_opens hr]
      have hbindings := hs.request
      rw [hr] at hbindings
      exact (henter name bindings s.span scope counts hbindings hs.span).bind
        fun r => (ih hrest r.2).map _
    · rw [flattenBody_cons_eq_of_stays hstays]
      exact (ih hrest counts).map _

namespace Program

theorem PlacedIn.failsIn_instantiate (hp : p.PlacedIn source) (limit room : Nat) :
    (p.instantiate limit room).FailsIn source := by
  -- By induction on how many more levels are allowed, with the statement blamed at the last one.
  induction room with
  | zero =>
    intro name bindings span scope counts hbindings hspan
    rw [instantiate]
    split <;> exact failsIn_error ⟨span, rfl, hspan⟩
  | succ room ih =>
    intro name bindings span scope counts hbindings hspan
    cases hfind : p.find? name with
    | none =>
      rw [instantiate, hfind]
      exact failsIn_error ⟨span, rfl, hspan⟩
    | some t =>
      have ht := hp.templates t (List.mem_of_find?_eq_some hfind)
      rw [instantiate_succ_eq hfind]
      exact (t.failsIn_bind hbindings ∅).bind fun bound => ih.flattenBody ht.body _

/-- A program that cannot be flattened is blamed in its text. -/
theorem PlacedIn.failsIn_flatten (hp : p.PlacedIn source) (limit : Nat) :
    FailsIn source (p.flatten limit) := by
  rw [flatten]
  split
  · next hentry => exact absurd (entryPoint?_eq_none_iff.mp hentry) hp.ne_nil
  · next entry hentry =>
    have hentry' := hp.templates entry (mem_of_entryPoint? hentry)
    exact ((hp.failsIn_instantiate limit limit).flattenBody hentry'.body ∅).map _

/-- The statements of a flattened program lie in its text, as a scope only renames what is asked
for. -/
theorem PlacedIn.flatten (hp : p.PlacedIn source) {limit : Nat} {statements : List Statement}
    (hflat : p.flatten limit = .ok statements) : ∀ s ∈ statements, s.PlacedIn source := by
  have hinvariant : p.Invariant (fun _ => True) (Statement.PlacedIn source) := by
    refine ⟨trivial, fun _ _ _ _ _ _ _ _ _ _ _ _ _ => trivial, fun t ht s hs _ scope _ => ?_⟩
    have hplaced := (hp.templates t ht).body s hs
    refine ⟨?_, hplaced.span⟩
    have hrequest := hplaced.request
    cases hr : s.request <;> rw [hr] at hrequest <;> exact hrequest
  exact hinvariant.flatten hflat

end Program

/-! ### Building -/

variable {statements : List Statement}

/-- An error that names the place of a statement lies where the statement does. -/
theorem NetworkError.Blames.placedIn {e : NetworkError} {s : Statement} (h : e.Blames s)
    (hs : s.PlacedIn source) : e.PlacedIn source := by
  cases e with
  | invalidOperand fault span =>
    obtain ⟨inputs, expr, outputs, hr, hlocation⟩ := h
    have hexpr := hs.request
    rw [hr] at hexpr
    exact ⟨expr.span, hlocation, hexpr⟩
  | coloring fault span => exact ⟨s.span, h, hs.span⟩
  | _ => exact h.elim

namespace Network

variable {n : Network}

theorem failsIn_ofStatements (hstays : ∀ s ∈ statements, s.Stays)
    (hplaced : ∀ s ∈ statements, s.PlacedIn source) (settings : LayoutSettings) :
    FailsIn source (ofStatements statements settings) := by
  intro e he
  obtain ⟨k, s, hk, hblames, -⟩ :=
    (performEach_spec (n := empty settings) ColorClasses.represents_start hstays).2 e he
  exact hblames.placedIn (hplaced s (List.mem_of_getElem? hk))

/-! ### The colors of the wires at combinators -/

/-- Wires stay known, whatever is asked for. -/
theorem Reachable.knows_serve (h : Reachable n) {wire : String} (hw : n.coloring.Knows wire)
    (call : NetworkCall) : (n.serve call).2.coloring.Knows wire := by
  obtain ⟨_, hrep⟩ := h.represents
  rw [coloring_serve]
  cases call with
  | add c inputs outputs span =>
    exact (hrep.settles (.attachAll [inputs, outputs])).knows wire hw
  | paint w color span => exact (hrep.settles (.paint w color)).knows wire hw
  | _ => exact hw

/-- The forest knows the wires at combinators. -/
theorem Reachable.knows_of_mem_wiring (h : Reachable n) :
    ∀ sides ∈ n.wiring, ∀ wire ∈ sides.1 ++ sides.2, n.coloring.Knows wire := by
  refine h.induction
    (P := fun n => ∀ sides ∈ n.wiring, ∀ wire ∈ sides.1 ++ sides.2, n.coloring.Knows wire)
    (fun _ _ hmem => absurd hmem List.not_mem_nil) fun n call hn ih => ?_
  have hold : ∀ sides ∈ n.wiring, ∀ wire ∈ sides.1 ++ sides.2,
      (n.serve call).2.coloring.Knows wire :=
    fun sides hsides wire hwire => hn.knows_serve (ih sides hsides wire hwire) call
  obtain heq | ⟨c, inputs, outputs, span, rfl, hok, heq⟩ := n.wiring_serve call
  · rwa [heq]
  · -- The wires of a combinator that is accepted have been registered for it.
    obtain ⟨_, hrep⟩ := hn.represents
    have hvalid := (hrep.settles (.attachAll [inputs, outputs])).valid
    rw [heq, List.forall_mem_append, List.forall_mem_singleton]
    refine ⟨hold, fun wire hwire => ?_⟩
    rw [coloring_serve]
    refine (hvalid.mem_order wire).mp ?_
    show wire ∈ (n.coloring.attachAll [inputs, outputs]).2.order.toList
    rw [ColorClasses.order_attachAll hrep.valid, ColorClasses.mem_enlist, hok]
    exact .inr (by simpa [Except.isOk, Except.toBool] using hwire)

/-- The connections that are laid out are those of the combinators. -/
theorem exists_sides_of_connection {settings : LayoutSettings} {colors : NameMap Color}
    {connections : List Connection} (hmem : connections ∈ (n.site settings colors).connections)
    {c : Connection} (hc : c ∈ connections) :
    ∃ sides ∈ n.wiring, c.wire ∈ sides.1 ++ sides.2 := by
  obtain ⟨node, hnode, rfl⟩ := List.mem_map.mp (List.mem_toArray.mp hmem)
  refine ⟨(node.inputs, node.outputs), List.mem_map_of_mem hnode, ?_⟩
  rw [Node.connections] at hc
  rw [List.mem_append] at hc ⊢
  exact hc.imp (fun hc => by obtain ⟨w, hw, rfl⟩ := List.mem_map.mp hc; exact hw)
    fun hc => by obtain ⟨w, hw, rfl⟩ := List.mem_map.mp hc; exact hw

/-- A wire at a combinator has a color, unless it is a channel. -/
theorem Reachable.isSome_get?_colors (h : Reachable n) {sides : List String × List String}
    (hsides : sides ∈ n.wiring) {wire : String} (hwire : wire ∈ sides.1 ++ sides.2)
    (hchannel : ∀ color : Color, wire ≠ color.channel) : (n.colors.get? wire).isSome := by
  obtain ⟨_, hrep⟩ := h.represents
  obtain ⟨f, -, hcoloring⟩ := hrep.exists_solution
  have hred : wire ≠ redChannel := hchannel .red
  have hgreen : wire ≠ greenChannel := hchannel .green
  have hcolor := hcoloring wire (h.knows_of_mem_wiring _ hsides wire hwire)
  rw [ColorClasses.coloring, if_neg hred, if_neg hgreen] at hcolor
  exact Option.isSome_iff_exists.mpr ⟨_, hcolor⟩

/-- Wires at combinators have colors, given that they are no channels. -/
theorem Reachable.colored_site (h : Reachable n)
    (hchannels : ∀ sides ∈ n.wiring, ∀ wire ∈ sides.1 ++ sides.2, ∀ color : Color,
      wire ≠ color.channel) (settings : LayoutSettings) : (n.site settings n.colors).Colored := by
  intro connections hconnections c hc
  obtain ⟨sides, hsides, hwire⟩ := exists_sides_of_connection hconnections hc
  exact h.isSome_get?_colors hsides hwire (hchannels sides hsides c.wire hwire)

theorem finalize_eq_error {e : NetworkError} (h : n.finalize = .error e) :
    ∃ fault, e = .layout fault ∧ (n.site n.settings n.colors).layout = .error fault := by
  rw [finalize] at h
  split at h
  · cases h
  · split at h
    · cases h
    · next fault hlayout =>
      cases h
      exact ⟨fault, rfl, hlayout⟩

end Network

/-- The wires of a combinator are wires of its statement. -/
theorem Statement.mem_wires_of_node? {s : Statement} {node : Node} (h : s.node? = some node)
    {wire : String} (hwire : wire ∈ node.inputs ++ node.outputs) : wire ∈ s.request.wires := by
  rw [node?] at h
  cases hr : s.request with
  | binary inputs expr outputs =>
    rw [hr] at h
    obtain ⟨c, -, rfl⟩ := Option.map_eq_some_iff.mp h
    exact hwire
  | display inputs signal =>
    rw [hr] at h
    cases h
    rwa [List.append_nil] at hwire
  | paint | instantiate =>
    rw [hr] at h
    cases h
  | constant | label =>
    rw [hr] at h
    cases h
    exact hwire

/-! ### Compiling -/

/-- The network of a parsed program has colors for the wires at its combinators. -/
theorem Program.colored_site_of_parse (hparse : parse source = .ok p) {limit : Nat}
    (hflat : p.flatten limit = .ok statements) {settings : LayoutSettings} {n : Network}
    (hbuilt : Network.ofStatements statements settings = .ok n) (settings' : LayoutSettings) :
    (n.site settings' n.colors).Colored := by
  refine (Network.Reachable.ofStatements hbuilt).colored_site (fun sides hsides wire hwire => ?_) _
  obtain ⟨node, hnode, rfl⟩ := List.mem_map.mp hsides
  obtain ⟨s, hs, hsome⟩ := Network.exists_node?_of_mem_nodes hbuilt hnode
  exact ne_channel_of_flatten (isIdentifier_of_parse hparse) hflat s hs wire
    (Statement.mem_wires_of_node? hsome hwire)

/-- Compiling fails in the text, or in the layout, but there not for a missing color. -/
theorem Program.placedIn_of_compile_error (hparse : parse source = .ok p)
    {settings : CompileSettings} {e : NetworkError} (h : p.compile settings = .error e) :
    e.PlacedIn source ∨ ∃ fault, e = .layout fault ∧ ∀ wire, fault ≠ .uncolored wire := by
  have hp := placedIn_of_parse hparse
  rw [compile] at h
  cases hflat : p.flatten settings.maxDepth with
  | error e' =>
    rw [hflat] at h
    cases h
    exact .inl (hp.failsIn_flatten _ _ hflat)
  | ok statements =>
    rw [hflat] at h
    simp only [bind, Except.bind] at h
    cases hbuilt : Network.ofStatements statements settings.layout with
    | error e' =>
      rw [hbuilt] at h
      cases h
      exact .inl (Network.failsIn_ofStatements (stays_of_flatten hflat) (hp.flatten hflat) _ _
        hbuilt)
    | ok n =>
      rw [hbuilt] at h
      simp only at h
      cases hlaid : n.finalize with
      | ok r =>
        rw [hlaid] at h
        cases h
      | error e' =>
        rw [hlaid] at h
        cases h
        obtain ⟨fault, rfl, hlayout⟩ := Network.finalize_eq_error hlaid
        refine .inr ⟨fault, rfl, fun wire heq => ?_⟩
        rw [heq] at hlayout
        exact (colored_site_of_parse hparse hflat hbuilt _).layout_ne_uncolored wire hlayout

/-- Where a text cannot be compiled, and it is not for the layout, the error has a span of the text:
its ends are behind some of the characters of the text, in order, and each of them counts the bytes
before it, the lines and the characters of its line. No error is about a combinator that does not
exist or is not a button, and the layout does not fail for a missing color. -/
theorem compile_error_located {settings : CompileSettings} {e : NetworkError}
    (h : compile source settings = .error e) :
    ((∀ fault, e ≠ .layout fault) → ∃ span, e.location = some span ∧
      span.start.LiesIn source ∧ span.stop.LiesIn source ∧
      span.start.offset ≤ span.stop.offset ∧ span.stop.offset ≤ source.utf8ByteSize) ∧
    (∀ index, e ≠ .noCombinator index) ∧ (∀ index, e ≠ .notButton index) ∧
    ∀ wire, e ≠ .layout (.uncolored wire) := by
  have hcases : e.PlacedIn source ∨
      ∃ fault, e = .layout fault ∧ ∀ wire, fault ≠ .uncolored wire := by
    rw [compile] at h
    cases hparse : Program.parse source with
    | error e' =>
      rw [hparse] at h
      cases h
      exact .inl (Program.placedIn_of_parse_error hparse)
    | ok p =>
      rw [hparse] at h
      exact Program.placedIn_of_compile_error hparse h
  obtain ⟨span, hlocation, hspan⟩ | ⟨fault, rfl, hfault⟩ := hcases
  · refine ⟨fun _ => ⟨span, hlocation, hspan.start, hspan.stop, hspan.ordered,
      hspan.stop.offset_le⟩, ?_, ?_, ?_⟩ <;> rintro _ rfl <;> cases hlocation
  · refine ⟨fun hno => absurd rfl (hno fault), ?_, ?_, fun wire heq => ?_⟩
    · rintro index ⟨⟩
    · rintro index ⟨⟩
    · exact hfault wire (NetworkError.layout.inj heq)

/-- A wire is made green on the third line, behind characters of more than one byte, after it has
been made red. -/
def repainted : String := "Main() \x7b // Größe → Farbe\n  red X /* é */\n  green X\n\x7d"

theorem compile_error_located_repainted : ∃ e span,
    compile repainted {} = .error e ∧ (∀ fault, e ≠ .layout fault) ∧
      e.location = some span ∧ span = ⟨⟨49, 3, 3⟩, ⟨56, 3, 10⟩⟩ ∧
      span.start.LiesIn repainted ∧ span.stop.LiesIn repainted ∧
      span.start.offset ≤ span.stop.offset ∧ span.stop.offset ≤ repainted.utf8ByteSize := by
  have hfails : (compile repainted {}).map (fun _ => ()) =
      .error (.coloring (.conflict "X" ".red") (some ⟨⟨49, 3, 3⟩, ⟨56, 3, 10⟩⟩)) := by
    decide +kernel
  cases hcompile : compile repainted {} with
  | ok n =>
    rw [hcompile] at hfails
    cases hfails
  | error e =>
    rw [hcompile] at hfails
    obtain rfl := Except.error.inj hfails
    have hcoloring : ∀ fault, .coloring (.conflict "X" ".red") (some ⟨⟨49, 3, 3⟩, ⟨56, 3, 10⟩⟩) ≠
        NetworkError.layout fault := by
      rintro fault ⟨⟩
    obtain ⟨span, hlocation, hspan⟩ := (compile_error_located hcompile).1 hcoloring
    cases hlocation
    exact ⟨_, _, rfl, hcoloring, rfl, rfl, hspan⟩

end CombinatorNet
