import CombinatorNet.Network.Basic
import CombinatorNet.Proofs.Layout.Reached
import Mathlib.Tactic.ByContra

/-!
# Layouts are local

Each segment of a layout spans fewer rows than the grid is wide. A pole is within reach of the last
contact of each wire it lists, since it was when the wire was relayed and the wire has not moved
since. A combinator is within reach of its open wires, since a slot is filled only when no wire is
endangered.

## Main results

* `Placement.Reached.located` — open ends and poles are where they say, and segments are short
* `Network.rowDistance_lt_cliqueSize` — the ends of a segment are less than the width apart
-/

namespace CombinatorNet

variable {site : Site}

/-! ### Rows -/

/-- Whether or not the end of a window fits in a word, what a slot reaches lies in near rows. -/
theorem row_sub_lt_of_le_reach {width slot slot' : Nat} (hwidth : 0 < width)
    (h : slot' ≤ reach width slot) : slot' / width - slot / width < width := by
  have hpos : 0 < (slot / width + width) * width := Nat.mul_pos (Nat.add_pos_right _ hwidth) hwidth
  have hend : slot' ≤ windowEnd width slot := h.trans (reach_le_windowEnd width slot)
  have hlt : slot' < (slot / width + width) * width := by
    rw [windowEnd] at hend
    omega
  rw [← Nat.div_lt_iff_lt_mul hwidth] at hlt
  omega

/-- Cells that keep their positions keep their distances. -/
theorem Layout.rowDistance?_eq_some_of_keeps {l l' : Layout} {s : Segment} {d : Nat}
    (hkeeps : ∀ cell g, l.position? cell = some g → l'.position? cell = some g)
    (h : l.rowDistance? s = some d) : l'.rowDistance? s = some d := by
  unfold rowDistance? at h ⊢
  split at h
  · next g g' hg hg' =>
    rw [hkeeps _ _ hg, hkeeps _ _ hg']
    exact h
  · cases h

namespace Placement

variable {p q : Placement} {wire : String} {pole : Pole} {e : OpenEnd} {id i slot : Nat}

/-- The cell that a finished or unfinished placement gives to a combinator or pole. -/
def position? (site : Site) (p : Placement) (cell : Cell) : Option GridPosition :=
  (p.toLayout site).position? cell

/-- Every segment drawn spans fewer rows than the grid is wide. -/
def SegmentsLocal (site : Site) (p : Placement) : Prop :=
  ∀ s ∈ p.segments, ∃ d, (p.toLayout site).rowDistance? s = some d ∧ d < site.width

/-- Every open end is in the slot it says, among the slots up to a given one. -/
def OpenEndsLocated (site : Site) (p : Placement) (last : Nat) : Prop :=
  ∀ wire e, p.openEnds.get? wire = some e →
    p.position? site e.contact.cell = some (.ofSlot e.slot site.width) ∧ e.slot ≤ last

theorem SegmentsLocal.keeps (h : SegmentsLocal site p) (hsegments : q.segments = p.segments)
    (hkeeps : ∀ cell g, p.position? site cell = some g → q.position? site cell = some g) :
    SegmentsLocal site q := by
  intro s hs
  obtain ⟨d, hd, hlt⟩ := h s (hsegments ▸ hs)
  exact ⟨d, Layout.rowDistance?_eq_some_of_keeps hkeeps hd, hlt⟩

theorem position?_route (cell : Cell) (g : GridPosition) (wire : String) (i : Nat)
    (h : p.position? site cell = some g) : (p.route wire i).position? site cell = some g := by
  cases cell with
  | combinator id => exact h
  | pole j =>
    -- A hop changes the wires of a pole, which has the position it had.
    change (p.poles[j]?).map (·.position) = some g at h
    show ((p.route wire i).poles[j]?).map (·.position) = some g
    rw [poles_route, Option.map_map, ← h]
    congr 1
    funext r
    dsimp only [Function.comp_apply]
    split <;> rfl

theorem position?_addPole (cell : Cell) (g : GridPosition) (slot : Nat)
    (h : p.position? site cell = some g) : (addPole site p slot).position? site cell = some g := by
  cases cell with
  | combinator id => exact h
  | pole j =>
    -- A pole with a position has an index in use, which the new pole does not take.
    change (p.poles[j]?).map (·.position) = some g at h
    obtain ⟨r, hr, hg⟩ := Option.map_eq_some_iff.mp h
    obtain ⟨hj, -⟩ := Array.getElem?_eq_some_iff.mp hr
    show ((addPole site p slot).poles[j]?).map (·.position) = some g
    rw [poles_addPole, if_neg (Nat.ne_of_lt hj), hr, ← hg]
    rfl

theorem position?_enterCombinator (cell : Cell) (g : GridPosition)
    (h : p.position? site cell = some g) :
    (enterCombinator site p).position? site cell = some g := by
  cases cell with
  | combinator id =>
    change p.positions[id]? = some g at h
    obtain ⟨hid, -⟩ := Array.getElem?_eq_some_iff.mp h
    show (p.positions.push _)[id]? = some g
    rw [Array.getElem?_push_lt hid, ← h, Array.getElem?_eq_getElem hid]
  | pole j => exact h

/-! ### Drawing segments -/

/-- Contacts may be drawn into a slot: they have its position, and the slot is in a row near the open
ends of their wires. -/
structure Drawable (site : Site) (slot : Nat) (placed : List (String × Contact)) (p : Placement) :
    Prop where
  cells : ∀ c ∈ placed, p.position? site c.2.cell = some (.ofSlot slot site.width)
  openEnds : OpenEndsLocated site p slot
  near : ∀ wire e, contactsOf wire placed ≠ [] → p.openEnds.get? wire = some e →
    slot / site.width - e.slot / site.width < site.width
  segments : SegmentsLocal site p

theorem position?_connect {contact : Contact} (hq : connect site slot p wire contact = .ok q)
    (cell : Cell) : q.position? site cell = p.position? site cell := by
  obtain ⟨queues, openEnds, segments, rfl⟩ := connect_frame hq
  rfl

/-- A segment from an open end in a near row is short. -/
private theorem rowDistance?_of_near {s : Segment}
    (hsource : p.position? site s.source.cell = some (.ofSlot e.slot site.width))
    (htarget : p.position? site s.target.cell = some (.ofSlot slot site.width))
    (hle : e.slot ≤ slot) (hnear : slot / site.width - e.slot / site.width < site.width) :
    ∃ d, (p.toLayout site).rowDistance? s = some d ∧ d < site.width := by
  have hrows : e.slot / site.width ≤ slot / site.width := Nat.div_le_div_right hle
  refine ⟨slot / site.width - e.slot / site.width, ?_, hnear⟩
  simp only [position?] at hsource htarget
  simp only [Layout.rowDistance?, hsource, htarget, GridPosition.ofSlot, Nat.max_eq_right hrows,
    Nat.min_eq_left hrows]

/-- Drawing one contact draws a short segment, if any. -/
theorem Drawable.segments_connect {contact : Contact} {rest : List (String × Contact)}
    (h : Drawable site slot ((wire, contact) :: rest) p)
    (hq : connect site slot p wire contact = .ok q) : SegmentsLocal site q := by
  have hkeeps : ∀ cell g, p.position? site cell = some g → q.position? site cell = some g :=
    fun cell g hg => (position?_connect hq cell).trans hg
  obtain ⟨segments, hdraw, hq⟩ := bind_eq_ok.mp hq
  have hsegments : q.segments = segments := by
    cases hq
    rfl
  rw [draw] at hdraw
  split at hdraw
  · cases hdraw
    exact h.segments.keeps hsegments hkeeps
  · next e he =>
    obtain ⟨color, -, hdraw⟩ := bind_eq_ok.mp hdraw
    cases hdraw
    intro s hs
    rw [hsegments] at hs
    rcases Array.mem_push.mp hs with hs | rfl
    · obtain ⟨d, hd, hlt⟩ := h.segments s hs
      exact ⟨d, Layout.rowDistance?_eq_some_of_keeps hkeeps hd, hlt⟩
    · -- The new segment starts at the open end, which is in a row near this slot.
      obtain ⟨hsource, hle⟩ := h.openEnds wire e he
      have htarget := h.cells _ List.mem_cons_self
      have hnear := h.near wire e (by
        rw [contactsOf_cons, if_pos rfl]
        exact List.cons_ne_nil _ _) he
      exact rowDistance?_of_near (hkeeps _ _ hsource) (hkeeps _ _ htarget) hle hnear

/-- After one contact the others may still be drawn. -/
theorem Drawable.connect {contact : Contact} {rest : List (String × Contact)}
    (h : Drawable site slot ((wire, contact) :: rest) p) (hwidth : 0 < site.width)
    (hq : connect site slot p wire contact = .ok q) : Drawable site slot rest q := by
  have hends := openEnds_connect hq
  refine ⟨fun c hc => ?_, fun w e he => ?_, fun w e hw he => ?_, h.segments_connect hq⟩
  · rw [position?_connect hq]
    exact h.cells c (List.mem_cons_of_mem _ hc)
  · -- The wire is open at the contact just drawn, and others are open where they were.
    rw [hends] at he
    rw [position?_connect hq]
    split at he
    · split at he
      · cases he
      · cases he
        exact ⟨h.cells _ List.mem_cons_self, Nat.le_refl _⟩
    · exact h.openEnds w e he
  · rw [hends] at he
    split at he
    · -- The wire was left open in this very slot, whatever the slot reaches.
      split at he
      · cases he
      · cases he
        rwa [Nat.sub_self]
    · next hne =>
      refine h.near w e ?_ he
      rw [contactsOf_cons, if_neg (fun heq => hne heq.symm)]
      exact hw

/-- Contacts in rows near the open ends of their wires are drawn with short segments. -/
theorem Drawable.connectEach {placed : List (String × Contact)} (h : Drawable site slot placed p)
    (hwidth : 0 < site.width) (hq : connectEach site slot p placed = .ok q) :
    OpenEndsLocated site q slot ∧ SegmentsLocal site q := by
  have hend : Drawable site slot [] q := connectEach_induction hq h
    fun _ _ _ _ _ hp hr => hp.connect hwidth hr
  exact ⟨hend.openEnds, hend.segments⟩

/-! ### The invariant -/

/-- Open ends and poles are where they say, and segments are short. -/
structure Located (site : Site) (p : Placement) : Prop where
  poles : ∀ (i : Nat) (pole : Pole), p.poles[i]? = some pole →
    pole.position = .ofSlot pole.slot site.width
  positions : p.positions.size = p.next
  openEnds : OpenEndsLocated site p (p.slots.size - 1)
  segments : SegmentsLocal site p

theorem OpenEndsLocated.keeps {last last' : Nat} (h : OpenEndsLocated site p last)
    (hle : last ≤ last') (hopen : q.openEnds = p.openEnds)
    (hkeeps : ∀ cell g, p.position? site cell = some g → q.position? site cell = some g) :
    OpenEndsLocated site q last' := by
  intro wire e he
  obtain ⟨hcell, hslot⟩ := h wire e (hopen ▸ he)
  exact ⟨hkeeps _ _ hcell, hslot.trans hle⟩

theorem located_initial (site : Site) : Located site (initial site) where
  poles i pole h := by simp [initial] at h
  positions := rfl
  openEnds wire e h := by cases h
  segments s h := by simp [initial] at h

theorem Located.route (h : Located site p) (wire : String) (i : Nat) :
    Located site (p.route wire i) := by
  have hkeeps : ∀ cell g, p.position? site cell = some g →
      (p.route wire i).position? site cell = some g := fun cell g => position?_route cell g wire i
  refine ⟨fun j r hr => ?_, h.positions, h.openEnds.keeps (Nat.le_refl _) rfl hkeeps,
    h.segments.keeps rfl hkeeps⟩
  -- The pole of the hop gets a wire more and stays where it is.
  rw [poles_route] at hr
  obtain ⟨r₀, hr₀, rfl⟩ := Option.map_eq_some_iff.mp hr
  split <;> exact h.poles j r₀ hr₀

theorem Located.addPole (h : Located site p) (slot : Nat) : Located site (addPole site p slot) := by
  have hkeeps : ∀ cell g, p.position? site cell = some g →
      (Placement.addPole site p slot).position? site cell = some g :=
    fun cell g => position?_addPole cell g slot
  refine ⟨fun j r hr => ?_, h.positions, h.openEnds.keeps (Nat.le_refl _) rfl hkeeps,
    h.segments.keeps rfl hkeeps⟩
  rw [poles_addPole] at hr
  split at hr
  · cases hr; rfl
  · exact h.poles j r hr

/-- A pole is within reach of its wires, as it was when they hopped to it. -/
theorem Located.drawable_pole (h : Located site p) (hagrees : Agrees site p)
    (hwidth : 0 < site.width) (hi : ⟨p.slots.size, i⟩ ∈ p.schedule) :
    Drawable site p.slots.size (p.poleContacts i) (p.enterPole i) := by
  obtain ⟨pole, hpole, hslot⟩ := hagrees.exists_pole hi
  refine ⟨?_, h.openEnds.keeps (Nat.sub_le _ _) rfl fun _ _ hg => hg, ?_,
    h.segments.keeps rfl fun _ _ hg => hg⟩
  · intro c hc
    obtain ⟨wire, -, rfl⟩ := List.mem_map.mp hc
    show (p.poles[i]?).map (·.position) = _
    rw [hpole, Option.map_some, h.poles i pole hpole, hslot]
  · intro wire e hwire he
    -- A wire of the pole was relayed to it from the end that is still open.
    rw [hagrees.contactsOf_poleContacts hpole] at hwire
    have hmem : wire ∈ pole.wires := by
      by_contra hmem
      exact hwire (if_neg hmem)
    obtain ⟨e', id, hr⟩ := hagrees.relayed hpole hslot.ge hmem
    obtain rfl : e = e' := Option.some_inj.mp (he.symm.trans hr.opened)
    exact row_sub_lt_of_le_reach hwidth (hslot ▸ hr.within)

theorem Located.placePole (h : Located site p) (hagrees : Agrees site p) (hwidth : 0 < site.width)
    (hi : ⟨p.slots.size, i⟩ ∈ p.schedule) (hq : placePole site p i = .ok q) : Located site q := by
  rw [placePole_eq] at hq
  have hlocal := (h.drawable_pole hagrees hwidth hi).connectEach hwidth hq
  obtain ⟨queues, openEnds, segments, rfl⟩ := connectEach_frame hq
  refine ⟨h.poles, h.positions, ?_, hlocal.2⟩
  show OpenEndsLocated site _ ((p.slots.push (.pole i)).size - 1)
  rw [Array.size_push]
  exact hlocal.1

/-- The next combinator is within reach of its wires, as none of them is endangered. -/
theorem Located.drawable_combinator (h : Located site p) (hagrees : Agrees site p)
    (hwidth : 0 < site.width) (hsafe : endangered site p = [])
    (hfree : p.slots.size ∉ p.schedule.map (·.slot)) (hnext : p.next < site.connections.size) :
    Drawable site p.slots.size (nextContacts site p) (enterCombinator site p) := by
  have hkeeps : ∀ cell g, p.position? site cell = some g →
      (enterCombinator site p).position? site cell = some g := position?_enterCombinator
  refine ⟨?_, h.openEnds.keeps (Nat.sub_le _ _) rfl hkeeps, ?_, h.segments.keeps rfl hkeeps⟩
  · intro c hc
    obtain ⟨connection, -, rfl⟩ := List.mem_map.mp hc
    show (p.positions.push (.ofSlot p.slots.size site.width))[p.next]? = _
    rw [← h.positions, Array.getElem?_push_size]
  · intro wire e hwire he
    obtain ⟨side, rest, hqueue⟩ := hagrees.waits_of_next hnext hfree hwire
    refine row_sub_lt_of_le_reach hwidth ?_
    by_contra hfar
    -- The wire would be out of reach of the combinator predicted for this slot.
    have hthreat : Threatened site p ⟨wire, reach site.width e.slot⟩ e p.next := by
      refine ⟨he, rfl, ⟨side, rest, hqueue⟩, Nat.le_refl _, ?_⟩
      rw [Nat.sub_self, predict_of_free hfree]
      exact Nat.lt_of_not_le hfar
    have hmem := mem_endangered.mpr ⟨e, p.next, hthreat⟩
    rw [hsafe] at hmem
    cases hmem

theorem Located.placeCombinator (h : Located site p) (hagrees : Agrees site p)
    (hwidth : 0 < site.width) (hsafe : endangered site p = [])
    (hfree : p.slots.size ∉ p.schedule.map (·.slot)) (hnext : p.next < site.connections.size)
    (hq : placeCombinator site p = .ok q) : Located site q := by
  rw [placeCombinator_eq] at hq
  have hlocal := (h.drawable_combinator hagrees hwidth hsafe hfree hnext).connectEach hwidth hq
  obtain ⟨queues, openEnds, segments, rfl⟩ := connectEach_frame hq
  refine ⟨h.poles, ?_, ?_, hlocal.2⟩
  · show (p.positions.push _).size = p.next + 1
    rw [Array.size_push, h.positions]
  · show OpenEndsLocated site _ ((p.slots.push (.combinator p.next)).size - 1)
    rw [Array.size_push]
    exact hlocal.1

theorem Reached.located (h : Reached site p) (hwidth : 0 < site.width) : Located site p := by
  induction h with
  | initial => exact located_initial site
  | expire _ ih => exact ⟨ih.poles, ih.positions, ih.openEnds, ih.segments⟩
  | merge _ _ ih => exact ih.route _ _
  | splice _ _ _ _ _ ih => exact (ih.addPole _).route _ _
  | placePole hp _ hi hq ih => exact ih.placePole hp.agrees hwidth hi hq
  | placeCombinator hp hsafe hfree hnext hq ih =>
    exact ih.placeCombinator hp.agrees hwidth hsafe hfree hnext hq

end Placement

/-- The ends of a segment of a layout are in rows that are less than the width of the grid apart. -/
theorem Network.rowDistance_lt_cliqueSize (n : Network) (settings : LayoutSettings)
    (colors : NameMap Color) {l : Layout} (h : (n.site settings colors).layout = .ok l) :
    l.cliqueSize = max settings.cliqueSize 2 ∧
      ∀ s ∈ l.segments, ∃ d, l.rowDistance? s = some d ∧ d < l.cliqueSize := by
  obtain ⟨p, hp, -, rfl⟩ := Placement.exists_reached_of_layout h
  have hwidth : 0 < (n.site settings colors).width :=
    Nat.lt_of_lt_of_le Nat.two_pos (Nat.le_max_right _ _)
  exact ⟨rfl, (hp.located hwidth).segments⟩

/-- Six combinators in rows of two, of which the first and the last share a wire. -/
def Network.distantPair : Network :=
  let spacer : Node := ⟨.ofHeading "" 1, [], [], .nowhere, ∅⟩
  { Network.empty {} with
    nodes := [{ spacer with outputs := ["A"] }, spacer, spacer, spacer, spacer,
      { spacer with inputs := ["A"] }] }

theorem Network.rowDistance_lt_cliqueSize_distantPair :
    ∃ l, (distantPair.site ⟨2, 5⟩ (.ofList [("A", .red)])).layout = .ok l ∧ l.poles.size = 2 ∧
      l.cliqueSize = max 2 2 ∧
      ∀ s ∈ l.segments, ∃ d, l.rowDistance? s = some d ∧ d < l.cliqueSize := by
  have hsize : (distantPair.site ⟨2, 5⟩ (.ofList [("A", .red)])).layout.toOption.map
      (·.poles.size) = some 2 := by decide +kernel
  cases hl : (distantPair.site ⟨2, 5⟩ (.ofList [("A", .red)])).layout with
  | error e => rw [hl] at hsize; cases hsize
  | ok l =>
    rw [hl] at hsize
    exact ⟨l, rfl, Option.some_inj.mp hsize, rowDistance_lt_cliqueSize distantPair ⟨2, 5⟩ _ hl⟩

end CombinatorNet
