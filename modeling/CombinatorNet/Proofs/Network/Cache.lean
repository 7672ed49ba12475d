import CombinatorNet.Proofs.Network.Refusal

/-!
# The layout that a network keeps

A network keeps its layout until a combinator or a color is accepted. Nothing else has to do with
what the layout is made of, so the layout that is kept is always the one that would be computed now.

## Main definitions

* `Network.freshLayout` — the layout of a network as it is now

## Main results

* `Network.freshLayout_serve` — only combinators and colors that are accepted change that layout
* `Network.Reachable.finalize_eq_freshLayout` — the layout that is kept is the one of the network as
  it is now, and asking for it yields that one however often it was asked for before
-/

namespace CombinatorNet.Network

variable {n m : Network} {call : NetworkCall}

/-- The layout of a network as it is now, whether or not it keeps one. -/
def freshLayout (n : Network) : Except LayoutFault Layout := (n.site n.settings n.colors).layout

/-! ### What the layout is made of -/

/-- The connections of the combinators can be read off the wires of their sides. -/
theorem map_connections_eq (n : Network) : n.nodes.map Node.connections =
    n.wiring.map fun sides => sides.1.map (⟨·, .input⟩) ++ sides.2.map (⟨·, .output⟩) := by
  rw [wiring, List.map_map]
  rfl

theorem SameWires.freshLayout (h : n.SameWires m) (hsettings : m.settings = n.settings) :
    m.freshLayout = n.freshLayout := by
  obtain ⟨hcoloring, hwiring⟩ := h
  rw [Network.freshLayout, Network.freshLayout, site, site, map_connections_eq, map_connections_eq,
    hwiring, colors, colors, hcoloring, hsettings]

/-- The forest only matters by its colors. -/
theorem Alike.freshLayout (h : n.Alike m) : m.freshLayout = n.freshLayout := by
  obtain ⟨coloring, h, rfl⟩ := h
  rw [Network.freshLayout, Network.freshLayout, site, site, colors, colors, h.colors]

theorem layout_of_finalize {l : Layout} (h : n.finalize = .ok (l, m)) (hnone : n.layout = none) :
    n.freshLayout = .ok l ∧ m = { n with layout := some l } := by
  rw [finalize, hnone] at h
  rw [freshLayout]
  cases hl : (n.site n.settings n.colors).layout with
  | error fault => rw [hl] at h; cases h
  | ok l' =>
    rw [hl] at h
    cases h
    exact ⟨rfl, rfl⟩

/-! ### What requests do to it -/

/-- A request for neither a combinator nor a color leaves the settings. It leaves the layout too,
unless it is the one that computes it. -/
theorem layout_serve (h : call.isDemand = false) : (n.serve call).2.settings = n.settings ∧
    ((n.serve call).2.layout = n.layout ∨
      ∃ l, n.freshLayout = .ok l ∧ (n.serve call).2.layout = some l) := by
  cases call with
  | add | paint => cases h
  | step => exact ⟨rfl, .inl rfl⟩
  | setActive index active =>
    rw [serve]
    cases hset : n.setActive index active with
    | error e => exact ⟨rfl, .inl rfl⟩
    | ok m =>
      obtain ⟨node, -, -, rfl⟩ := setActive_eq_ok hset
      exact ⟨rfl, .inl rfl⟩
  | toggleActive index =>
    rw [serve]
    cases htoggle : n.toggleActive index with
    | error e => exact ⟨rfl, .inl rfl⟩
    | ok r =>
      obtain ⟨active, m⟩ := r
      obtain ⟨node, -, -, rfl⟩ := setActive_eq_ok (toggleActive_eq_ok htoggle)
      exact ⟨rfl, .inl rfl⟩
  | finalize =>
    rw [serve]
    cases hlaid : n.finalize with
    | error e => exact ⟨rfl, .inl rfl⟩
    | ok r =>
      obtain ⟨l, m⟩ := r
      cases hlayout : n.layout with
      | none =>
        obtain ⟨hfresh, rfl⟩ := layout_of_finalize hlaid hlayout
        exact ⟨rfl, .inr ⟨l, hfresh, rfl⟩⟩
      | some kept =>
        rw [finalize, hlayout] at hlaid
        cases hlaid
        exact ⟨rfl, .inl hlayout⟩

/-- An accepted demand leaves no layout. -/
theorem layout_of_accepted (h : call.isDemand = true) {answer : NetworkAnswer}
    (hok : (n.serve call).1 = .ok answer) : (n.serve call).2.layout = none := by
  cases call with
  | add c inputs outputs span =>
    rw [serve] at hok ⊢
    rcases n.add_cases c inputs outputs span with ⟨_, -, heq⟩ | ⟨-, heq⟩ <;> rw [heq] at hok ⊢
    cases hok
  | paint wire color span =>
    rw [serve] at hok ⊢
    rcases n.paint_cases wire color span with ⟨_, -, heq⟩ | ⟨-, heq⟩ <;> rw [heq] at hok ⊢
    cases hok
  | _ => cases h

/-- A request that is neither for a combinator nor for a color leaves the layout that would be
computed now. -/
theorem freshLayout_serve (h : call.isDemand = false) :
    (n.serve call).2.freshLayout = n.freshLayout :=
  (sameWires_serve h).freshLayout (layout_serve h).1

/-! ### The layout that is kept -/

/-- The layout that is kept, if there is one, is the layout that would be computed now. -/
def KeepsFresh (n : Network) : Prop := ∀ l, n.layout = some l → n.freshLayout = .ok l

theorem KeepsFresh.serve (hn : Reachable n) (h : n.KeepsFresh) (call : NetworkCall) :
    (n.serve call).2.KeepsFresh := by
  intro l hl
  cases hdemand : call.isDemand with
  | false =>
    rw [freshLayout_serve hdemand]
    rcases (layout_serve hdemand).2 with hkept | ⟨l', hfresh, hnew⟩
    · exact h l (hkept ▸ hl)
    · rw [hnew] at hl
      cases hl
      exact hfresh
  | true =>
    cases hanswer : (n.serve call).1 with
    | ok answer =>
      rw [layout_of_accepted hdemand hanswer] at hl
      cases hl
    | error e =>
      -- The forest may have been touched, but neither its colors nor the layout are different.
      have halike := hn.alike_of_refused hanswer
      have hlayout : (n.serve call).2.layout = n.layout := congrArg NetworkView.layout halike.view
      rw [halike.freshLayout]
      exact h l (hlayout ▸ hl)

theorem Reachable.keepsFresh (h : Reachable n) : n.KeepsFresh := by
  apply h.induction
  · intro settings l hl
    cases hl
  · intro n call hn ih
    exact ih.serve hn call

/-- A layout shows the colors of the network. -/
theorem colors_of_freshLayout {l : Layout} (h : n.freshLayout = .ok l) : l.colors = n.colors := by
  obtain ⟨p, -, h⟩ := Placement.bind_eq_ok.mp h
  cases h
  rfl

/-- Asking for the layout yields the one that is computed now. -/
theorem KeepsFresh.finalize (h : n.KeepsFresh) :
    n.finalize.map Prod.fst = n.freshLayout.mapError .layout := by
  rw [Network.finalize]
  cases hl : n.layout with
  | some l =>
    rw [h l hl]
    rfl
  | none =>
    rw [freshLayout]
    cases (n.site n.settings n.colors).layout <;> rfl

theorem freshLayout_serveAll_finalize (n : Network) (times : Nat) :
    (n.serveAll (List.replicate times .finalize)).freshLayout = n.freshLayout := by
  induction times generalizing n with
  | zero => rfl
  | succ times ih =>
    rw [List.replicate_succ, serveAll_cons, ih, freshLayout_serve rfl]

/-- However a network came about, the layout that it keeps is the layout of its combinators and
colors as they are now. And however often the layout is asked for, the answer is that one, or the
fault that computing it now meets. -/
theorem Reachable.finalize_eq_freshLayout (h : Reachable n) :
    (∀ l, n.layout = some l → n.freshLayout = .ok l ∧ l.colors = n.colors) ∧
    ∀ times, (n.serveAll (List.replicate times .finalize)).finalize.map Prod.fst =
      n.freshLayout.mapError .layout := by
  refine ⟨fun l hl => ?_, fun times => ?_⟩
  · have hfresh := h.keepsFresh l hl
    exact ⟨hfresh, colors_of_freshLayout hfresh⟩
  · rw [(h.serveAll _).keepsFresh.finalize, freshLayout_serveAll_finalize]

/-- A display of a red wire. -/
def redDisplay : List Statement :=
  [⟨.paint .red ["A"], .nowhere⟩, ⟨.display ["A"] "x", .nowhere⟩]

/-- A request for the layout, and one for a color that is refused. -/
def repaint : List NetworkCall := [.finalize, .paint "A" .green .nowhere]

theorem finalize_eq_freshLayout_repaint : ∃ n, ofStatements redDisplay {} = .ok n ∧
    (n.serveAll repaint).layout.isSome = true ∧
    (∀ l, (n.serveAll repaint).layout = some l →
      (n.serveAll repaint).freshLayout = .ok l ∧ l.colors = (n.serveAll repaint).colors) ∧
    ∀ times, ((n.serveAll repaint).serveAll (List.replicate times .finalize)).finalize.map
      Prod.fst = (n.serveAll repaint).freshLayout.mapError .layout := by
  have hlayout : ((ofStatements redDisplay {}).map fun n =>
      (n.serveAll repaint).layout.isSome) = .ok true := by decide +kernel
  cases hn : ofStatements redDisplay {} with
  | error e => rw [hn] at hlayout; cases hlayout
  | ok n =>
    rw [hn] at hlayout
    have hreachable : Reachable (n.serveAll repaint) := (Reachable.ofStatements hn).serveAll _
    exact ⟨n, rfl, Except.ok.inj hlayout, hreachable.finalize_eq_freshLayout⟩

end CombinatorNet.Network
