import CombinatorNet.Proofs.Layout.Routes

/-!
# What the segments of a layout show

A segment is drawn in the color of its wire, and where it ends at a side of a combinator, this side
carries the wire.

## Main definitions

* `Node.wiresOn` — the wires on a side of a combinator
* `Segment.Touches` — a segment ends at a contact

## Main results

* `Layout.get?_colors_of_mem_segments` — segments have the colors of their wires
* `Network.mem_wiresOn_of_touches` — segments end at combinators that carry their wires
-/

namespace CombinatorNet

/-! ### Colors -/

namespace Placement

variable {site : Site} {slot : Nat} {p q : Placement}

/-- The segments drawn so far have the colors of their wires. -/
def SegmentsColored (site : Site) (p : Placement) : Prop :=
  ∀ s ∈ p.segments, site.colors.get? s.wire = some s.color

theorem SegmentsColored.connect {wire : String} {contact : Contact} (h : SegmentsColored site p)
    (hq : connect site slot p wire contact = .ok q) : SegmentsColored site q := by
  obtain ⟨segments, hdraw, hq⟩ := bind_eq_ok.mp hq
  cases hq
  rw [draw] at hdraw
  split at hdraw
  · cases hdraw
    exact h
  · next e _ =>
    obtain ⟨color, hcolor, hdraw⟩ := bind_eq_ok.mp hdraw
    cases hdraw
    intro s hs
    rcases Array.mem_push.mp hs with hs | rfl
    · exact h s hs
    · -- The new segment has the color that was looked up for its wire.
      rw [colorOf] at hcolor
      split at hcolor
      · next c hget =>
        cases hcolor
        exact hget
      · cases hcolor

theorem SegmentsColored.connectEach {placed : List (String × Contact)}
    (h : SegmentsColored site p) (hq : connectEach site slot p placed = .ok q) :
    SegmentsColored site q := by
  refine connectEach_induction hq (I := fun _ r => SegmentsColored site r) h ?_
  intro wire contact rest r r' hr hconnect
  exact hr.connect hconnect

/-- In every state of the pass, segments have the colors of their wires. -/
theorem Reached.segmentsColored (h : Reached site p) : SegmentsColored site p := by
  induction h with
  | initial =>
    intro s hs
    simp [Placement.initial] at hs
  | expire _ ih => exact ih
  | merge _ _ ih => exact ih
  | splice _ _ _ _ _ ih => exact ih
  | @placePole p q i _ _ _ hq ih =>
    -- Entering a slot draws nothing yet.
    have henter : SegmentsColored site (p.enterPole i) := ih
    exact henter.connectEach hq
  | @placeCombinator p q _ _ _ _ hq ih =>
    have henter : SegmentsColored site (enterCombinator site p) := ih
    exact henter.connectEach hq

end Placement

/-- The segments of a layout have the colors of their wires. -/
theorem Layout.get?_colors_of_mem_segments {site : Site} {l : Layout} (h : site.layout = .ok l)
    {s : Segment} (hs : s ∈ l.segments) : l.colors.get? s.wire = some s.color := by
  obtain ⟨p, hp, -, rfl⟩ := Placement.exists_reached_of_layout h
  exact hp.segmentsColored s hs

/-! ### Contacts -/

/-- The wires on a side of a combinator. -/
def Node.wiresOn (node : Node) : Side → List String
  | .input => node.inputs
  | .output => node.outputs

/-- The segment starts or ends at a contact. -/
def Segment.Touches (s : Segment) (contact : Contact) : Prop :=
  s.source = contact ∨ s.target = contact

namespace Network

variable {n : Network} {wire : String} {id : Nat} {side : Side}

theorem mem_wiresOn_of_mem_contacts (h : .combinator id side ∈ n.contacts wire) :
    ∃ node, n.nodes[id]? = some node ∧ wire ∈ node.wiresOn side := by
  obtain ⟨⟨node, i⟩, hnode, hmem⟩ := List.mem_flatMap.mp h
  have hget : n.nodes[i]? = some node := List.mem_zipIdx_iff_getElem?.mp hnode
  rcases List.mem_append.mp hmem with hmem | hmem
  · obtain ⟨hcount, heq⟩ := List.mem_replicate.mp hmem
    cases heq
    exact ⟨node, hget, List.count_pos_iff.mp (Nat.pos_of_ne_zero hcount)⟩
  · obtain ⟨hcount, heq⟩ := List.mem_replicate.mp hmem
    cases heq
    exact ⟨node, hget, List.count_pos_iff.mp (Nat.pos_of_ne_zero hcount)⟩

/-- Where a segment ends at a side of a combinator, this side carries its wire. -/
theorem mem_wiresOn_of_touches {settings : LayoutSettings} {colors : NameMap Color} {l : Layout}
    (h : (n.site settings colors).layout = .ok l) {s : Segment} (hs : s ∈ l.segments)
    (htouches : s.Touches (.combinator id side)) :
    ∃ node, n.nodes[id]? = some node ∧ s.wire ∈ node.wiresOn side := by
  obtain ⟨p, hp, hdone, rfl⟩ := Placement.exists_reached_of_layout h
  obtain ⟨trail, hrouted⟩ := hp.exists_routed
  have hroute := hrouted.trail_route hp.agrees (hp.agrees.queue_eq_nil hdone s.wire)
  rw [contacts_site] at hroute
  -- Both ends of the segment are on the path of its wire, whose combinators are its contacts.
  have hends : s.ends ∈ (trail s.wire).zip (trail s.wire).tail := by
    rw [← hroute.segments]
    exact List.mem_map_of_mem (List.mem_filter.mpr ⟨by simpa using hs, by simp⟩)
  have hpath := List.of_mem_zip hends
  have hmem : .combinator id side ∈ trail s.wire := by
    rcases htouches with heq | heq
    · exact heq ▸ hpath.1
    · exact heq ▸ List.mem_of_mem_tail hpath.2
  apply mem_wiresOn_of_mem_contacts
  rw [← hroute.combinators]
  exact List.mem_filter.mpr ⟨hmem, rfl⟩

end Network

end CombinatorNet
