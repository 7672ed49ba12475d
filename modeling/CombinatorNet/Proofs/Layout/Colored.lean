import CombinatorNet.Proofs.Layout.Drawing

/-!
# Wires without a color

The color of a wire is looked up where the wire is relayed and where a segment of it is drawn. In
both cases the wire is open: one of its contacts is placed, and another one is still to come. So a
missing color is only noticed for a wire that joins contacts. As such a wire has a segment in every
layout, it is noticed if there is no other fault before.

## Main definitions

* `Site.Lacks` — a wire joins contacts but has no color
* `Site.Colored` — the wires at the combinators have colors

## Main results

* `Placement.blamesLacking_fill` — a slot is filled, or another fault comes first, or the color of
  such a wire is missing
* `Site.lacks_of_layout`, `Site.isSome_of_layout` — a layout fails for such a wire only, and there
  is none while such a wire is left
* `Site.Colored.layout_ne_uncolored` — no layout fails for a missing color if there is none
-/

namespace CombinatorNet

/-- A wire joins at least two contacts but has no color. -/
structure Site.Lacks (site : Site) (wire : String) : Prop where
  joins : 2 ≤ (site.contacts wire).length
  color : site.colors.get? wire = none

/-- All wires at combinators have colors. -/
def Site.Colored (site : Site) : Prop :=
  ∀ connections ∈ site.connections, ∀ c ∈ connections, (site.colors.get? c.wire).isSome

namespace Placement

variable {α β : Type} {site : Site} {p q : Placement} {wire : String}

/-- Where a result is a missing color, it is that of a wire that lacks it. -/
def BlamesLacking (site : Site) (x : Except LayoutFault α) : Prop :=
  ∀ wire, x = .error (.uncolored wire) → site.Lacks wire

theorem blamesLacking_ok (a : α) : BlamesLacking site (.ok a) :=
  fun _ h => nomatch h

theorem blamesLacking_tooComplex (iterations slot : Nat) :
    BlamesLacking site (.error (.tooComplex iterations slot) : Except LayoutFault α) :=
  fun _ h => nomatch h

theorem BlamesLacking.bind {x : Except LayoutFault α} {f : α → Except LayoutFault β}
    (hx : BlamesLacking site x) (hf : ∀ a, x = .ok a → BlamesLacking site (f a)) :
    BlamesLacking site (x >>= f) := by
  cases x with
  | error fault =>
    intro wire h
    cases h
    exact hx wire rfl
  | ok a => exact hf a rfl

/-! ### Looking up a color -/

theorem blamesLacking_colorOf (hjoins : 2 ≤ (site.contacts wire).length) :
    BlamesLacking site (colorOf site wire) := by
  intro wire' h
  rw [colorOf] at h
  split at h
  · cases h
  · next hnone =>
    cases h
    exact ⟨hjoins, hnone⟩

theorem exists_colorOf (h : (site.colors.get? wire).isSome) :
    ∃ color, colorOf site wire = .ok color := by
  obtain ⟨color, hcolor⟩ := Option.isSome_iff_exists.mp h
  exact ⟨color, by rw [colorOf, hcolor]⟩

/-- An open wire has left one contact at a combinator, and waits for another one. -/
theorem Routed.joins {trail : String → List Contact} (h : Routed site p trail) {e : OpenEnd}
    (hopen : p.openEnds.get? wire = some e) : 2 ≤ (site.contacts wire).length := by
  have hends := h.openEnds wire
  rw [hopen] at hends
  split at hends
  · cases hends
  · next hqueue =>
    have htrail : trail wire ≠ [] := by
      intro hnil
      rw [hnil] at hends
      cases hends
    by_contra hfew
    have hle := length_le_one_of_ends (h.first wire) (h.last wire) (h.combinators wire) (by omega)
    rw [List.length_append] at hle
    have hpos := List.length_pos_of_ne_nil htrail
    have hpos' := List.length_pos_of_ne_nil hqueue
    omega

/-! ### Relaying -/

/-- Wires that are relayed are open. -/
theorem blamesLacking_relay (h : Reached site p) {d : Endangered} {e : OpenEnd} {id : Nat}
    (hd : Threatened site p d e id) (round : Nat) : BlamesLacking site (relay site round p d) := by
  obtain ⟨trail, hrouted⟩ := h.exists_routed
  refine (blamesLacking_colorOf (hrouted.joins hd.opened)).bind fun color _ => ?_
  split
  · exact blamesLacking_ok _
  · split
    · exact blamesLacking_ok _
    · exact blamesLacking_tooComplex _ _

theorem blamesLacking_relayEach {ds : List Endangered} (h : Reached site p)
    (hds : ∀ d ∈ ds, ∃ e id, Threatened site p d e id) (hnodup : (ds.map (·.wire)).Nodup)
    (round : Nat) : BlamesLacking site (relayEach site round p ds) := by
  induction ds generalizing p with
  | nil => exact blamesLacking_ok p
  | cons d rest ih =>
    obtain ⟨e, id, hd⟩ := hds d List.mem_cons_self
    refine (blamesLacking_relay h hd round).bind fun q hq => ?_
    obtain ⟨hreached, hds', hnodup'⟩ := h.relay_first hds hnodup hq
    exact ih hreached hds' hnodup'

theorem blamesLacking_settle (h : Reached site p) (left : Nat) :
    BlamesLacking site (settle site left p) := by
  induction left generalizing p with
  | zero =>
    rw [settle]
    split
    · exact blamesLacking_ok p
    · exact blamesLacking_tooComplex _ _
  | succ left ih =>
    rw [settle]
    split
    · exact blamesLacking_ok p
    · have hthreats : ∀ d ∈ endangered site p, ∃ e id, Threatened site p d e id :=
        fun d hd => mem_endangered.mp hd
      have hnodup := nodup_endangered site p
      exact (blamesLacking_relayEach h hthreats hnodup _).bind fun q hq =>
        ih (h.relayEach hthreats hnodup hq)

/-! ### Filling slots -/

/-- A segment starts where its wire is open. -/
theorem blamesLacking_connect {trail : String → List Contact} (h : Routed site p trail)
    (slot : Nat) (wire : String) (contact : Contact) :
    BlamesLacking site (connect site slot p wire contact) := by
  refine BlamesLacking.bind ?_ fun segments _ => blamesLacking_ok _
  rw [draw]
  split
  · exact blamesLacking_ok _
  · next e hopen =>
    exact (blamesLacking_colorOf (h.joins hopen)).bind fun color _ => blamesLacking_ok _

theorem blamesLacking_connectEach {trail : String → List Contact}
    {placed : List (String × Contact)} (h : Routed site p trail)
    (hfront : ∀ wire, contactsOf wire placed <+: p.queue wire) (slot : Nat) :
    BlamesLacking site (connectEach site slot p placed) := by
  -- By induction on the contacts that are left, which stay in front of their queues.
  induction placed generalizing p trail with
  | nil => exact blamesLacking_ok p
  | cons c rest ih =>
    refine (blamesLacking_connect h slot c.1 c.2).bind fun q hq => ?_
    obtain ⟨hrouted, hfront'⟩ := h.connect_front hfront hq
    exact ih hrouted hfront'

/-- Whether a pole or a combinator is placed, only the color of a wire that lacks it is missing. -/
theorem blamesLacking_fill (h : Reached site p) (hnext : p.next < site.connections.size)
    (run : Nat) : BlamesLacking site (fill site p run) := by
  refine (blamesLacking_settle h.expire _).bind fun mid hmid => ?_
  obtain ⟨hreached, -⟩ := h.expire.settle hmid
  obtain ⟨trail, hrouted⟩ := hreached.exists_routed
  have hnext' : mid.next < site.connections.size := by
    rw [next_settle hmid]
    exact hnext
  split
  · next s hfind =>
    have hfront := hreached.agrees.poleContacts_inFront (mem_schedule_of_find? hfind)
    refine (blamesLacking_connectEach (hrouted.enterPole s.pole) hfront _).bind fun placed _ => ?_
    split
    · exact blamesLacking_tooComplex _ _
    · exact blamesLacking_ok _
  · next hfind =>
    have hfront := hreached.agrees.nextContacts_inFront hnext' (free_of_find?_eq_none hfind)
    exact (blamesLacking_connectEach hrouted.enterCombinator hfront _).bind fun placed _ =>
      blamesLacking_ok _

theorem blamesLacking_complete (h : Reached site p) (run : Nat) :
    BlamesLacking site (complete site p run) := by
  fun_induction complete site p run with
  | case1 p run hnext fault hfill =>
    intro wire heq
    cases heq
    exact blamesLacking_fill h hnext run wire hfill
  | case2 p run hnext q run' hfill ih => exact ih (h.fill hnext hfill)
  | case3 p => exact blamesLacking_ok p

/-! ### Placing what has a color -/

/-- Only the segment needs a color, so a contact of a wire with a color is placed. -/
theorem exists_connect (hwire : (site.colors.get? wire).isSome) (slot : Nat) (p : Placement)
    (contact : Contact) : ∃ q, connect site slot p wire contact = .ok q := by
  obtain ⟨segments, hdraw⟩ : ∃ segments, draw site p wire contact = .ok segments := by
    rw [draw]
    split
    · exact ⟨_, rfl⟩
    · obtain ⟨color, hcolor⟩ := exists_colorOf hwire
      rw [hcolor]
      exact ⟨_, rfl⟩
  simp only [connect, hdraw, bind, Except.bind]
  exact ⟨_, rfl⟩

theorem exists_connectEach {placed : List (String × Contact)}
    (hplaced : ∀ c ∈ placed, (site.colors.get? c.1).isSome) (slot : Nat) (p : Placement) :
    ∃ q, connectEach site slot p placed = .ok q := by
  induction placed generalizing p with
  | nil => exact ⟨p, rfl⟩
  | cons c rest ih =>
    obtain ⟨hc, hrest⟩ := List.forall_mem_cons.mp hplaced
    obtain ⟨mid, hmid⟩ := exists_connect hc slot p c.2
    obtain ⟨q, hq⟩ := ih hrest mid
    exact ⟨q, bind_eq_ok.mpr ⟨mid, hmid, hq⟩⟩

/-- The wires of the next combinator have colors. -/
theorem isSome_of_mem_nextContacts (hsite : site.Colored) (p : Placement) :
    ∀ c ∈ nextContacts site p, (site.colors.get? c.1).isSome := by
  rw [nextContacts, List.forall_mem_map, Array.getD_eq_getD_getElem?]
  intro c hc
  cases hnode : site.connections[p.next]? with
  | none =>
    rw [hnode] at hc
    cases hc
  | some connections =>
    rw [hnode] at hc
    exact hsite connections (Array.mem_of_getElem? hnode) c hc

/-- The next combinator is placed whatever its wires are. -/
theorem exists_placeCombinator (hsite : site.Colored) (p : Placement) :
    ∃ q, placeCombinator site p = .ok q :=
  exists_connectEach (isSome_of_mem_nextContacts hsite p) _ _

end Placement

namespace Site

variable {site : Site} {wire : String}

/-- A layout fails for the color of a wire only if the wire joins contacts and has none. -/
theorem lacks_of_layout (h : site.layout = .error (.uncolored wire)) : site.Lacks wire := by
  have hdone : Placement.BlamesLacking site site.layout :=
    (Placement.blamesLacking_complete .initial 0).bind fun p _ =>
      Placement.blamesLacking_ok _
  exact hdone wire h

/-- In a layout every wire that joins contacts has a segment, and so a color. -/
theorem isSome_of_layout {l : Layout} (h : site.layout = .ok l)
    (hjoins : 2 ≤ (site.contacts wire).length) : (site.colors.get? wire).isSome := by
  obtain ⟨p, hp, hdone, rfl⟩ := Placement.exists_reached_of_layout h
  obtain ⟨trail, hrouted⟩ := hp.exists_routed
  have hqueue := hp.agrees.queue_eq_nil hdone wire
  have hlength := (hrouted.trail_route hp.agrees hqueue).length_segmentsOf
  rw [hrouted.length_trail hqueue] at hlength
  have hpos : 0 < ((p.toLayout site).segmentsOf wire).length := by omega
  obtain ⟨s, hs⟩ := List.exists_mem_of_length_pos hpos
  obtain ⟨hmem, hwire⟩ := List.mem_filter.mp hs
  have hcolor := hp.segmentsColored s (Array.mem_def.mpr hmem)
  rw [of_decide_eq_true hwire] at hcolor
  exact Option.isSome_iff_exists.mpr ⟨_, hcolor⟩

theorem exists_connection_of_contacts {contact : Contact} (h : contact ∈ site.contacts wire) :
    ∃ connections ∈ site.connections, ∃ c ∈ connections, c.wire = wire := by
  rw [contacts_eq] at h
  obtain ⟨⟨connections, id⟩, hmem, hin⟩ := List.mem_flatMap.mp h
  obtain ⟨c, hc, -⟩ := List.mem_map.mp hin
  obtain ⟨hc, hwire⟩ := List.mem_filter.mp hc
  exact ⟨connections, Array.mem_def.mpr (List.fst_mem_of_mem_zipIdx hmem), c, hc,
    of_decide_eq_true hwire⟩

/-- Where all wires at combinators have colors, no layout fails for a missing color. -/
theorem Colored.layout_ne_uncolored (h : site.Colored) (wire : String) :
    site.layout ≠ .error (.uncolored wire) := by
  intro heq
  have hlacks := lacks_of_layout heq
  have hjoins := hlacks.joins
  have hpos : 0 < (site.contacts wire).length := by omega
  obtain ⟨contact, hcontact⟩ := List.exists_mem_of_length_pos hpos
  obtain ⟨connections, hconnections, c, hc, rfl⟩ := exists_connection_of_contacts hcontact
  have hcolor := h connections hconnections c hc
  rw [hlacks.color] at hcolor
  cases hcolor

end Site

end CombinatorNet
