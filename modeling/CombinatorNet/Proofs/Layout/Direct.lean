import CombinatorNet.Proofs.Layout.Cells
import CombinatorNet.Proofs.Layout.Colored
import CombinatorNet.Proofs.Layout.Routes

/-!
# Layouts without poles

While there are no poles, combinators take the slots of their numbers, and the predictions say so.
An open end is then in danger just if the next contact of its wire is too many rows below it. So if
there is no such pair of contacts, no wire is ever relayed. If there is one, and no pole comes
between the two, the segment that joins them is too long.

## Main definitions

* `ContactsNear` — successive contacts are at combinators of near rows, without poles

## Main results

* `Placement.Reached.endangered_eq_nil`, `Placement.exists_complete` — where contacts are near, no
  wire is in danger, and the pass ends without poles
* `Placement.Reached.contactsNear` — where the pass ends without poles, contacts are near
* `Network.layout_without_poles_iff` — a layout has no poles just if contacts are near
-/

namespace CombinatorNet

/-- With each combinator in the slot of its number, contacts that follow each other on a wire are in
rows that are less than the width apart. -/
def ContactsNear (contacts : String → List Contact) (width : Nat) : Prop :=
  ∀ wire i side j side', [.combinator i side, .combinator j side'] <:+: contacts wire →
    j / width - i / width < width

/-! ### Rows and predictions -/

theorem le_windowEnd_of_row_sub_lt {width slot slot' : Nat} (hwidth : 0 < width)
    (h : slot' / width - slot / width < width) : slot' ≤ windowEnd width slot := by
  have hlt : slot' < (slot / width + width) * width := by
    rw [← Nat.div_lt_iff_lt_mul hwidth]
    omega
  rw [windowEnd]
  omega

@[simp] theorem predict_nil (first offset : Nat) : predict [] first offset = first + offset := by
  have heq : predict [] first offset =
      first + offset + scheduledWithin [] first (predict [] first offset) := predict_eq
  exact heq

namespace Placement

variable {site : Site} {p q : Placement} {wire : String} {e : OpenEnd} {id : Nat}

/-! ### States without poles -/

theorem Agrees.schedule_eq_nil (h : Agrees site p) (hnone : p.poles = #[]) : p.schedule = [] := by
  refine List.eq_nil_iff_forall_not_mem.mpr fun s hs => ?_
  obtain ⟨-, pole, hpole, -⟩ := (h.mem_schedule s.slot s.pole).mp hs
  simp [hnone] at hpole

/-- Without poles, each slot has the combinator of its number. -/
theorem Filled.slots_eq (h : Filled site p) (hnone : p.poles = #[]) :
    p.slots.toList = (List.range p.next).map .combinator := by
  have hcells : ∀ cell ∈ p.slots.toList, ∃ id, cell = .combinator id := by
    intro cell hcell
    cases cell with
    | combinator id => exact ⟨id, rfl⟩
    | pole i =>
      obtain ⟨slot, hslot⟩ := Array.mem_iff_getElem?.mp (Array.mem_def.mpr hcell)
      obtain ⟨-, pole, hpole, -⟩ := (h.poles slot i).mp hslot
      simp [hnone] at hpole
  rw [← h.combinators, List.map_filterMap]
  refine (List.filterMap_some.symm.trans (List.filterMap_congr fun cell hcell => ?_))
  obtain ⟨id, rfl⟩ := hcells cell hcell
  rfl

theorem Filled.size_slots (h : Filled site p) (hnone : p.poles = #[]) : p.slots.size = p.next := by
  rw [← Array.length_toList, h.slots_eq hnone, List.length_map, List.length_range]

/-- Without poles, the position of a combinator is that of the slot of its number. -/
theorem Filled.eq_ofSlot (h : Filled site p) (hlocated : Located site p) (hnone : p.poles = #[])
    {g : GridPosition} (hg : p.position? site (.combinator id) = some g) :
    g = .ofSlot id site.width := by
  change p.positions[id]? = some g at hg
  obtain ⟨hid, -⟩ := Array.getElem?_eq_some_iff.mp hg
  rw [hlocated.positions] at hid
  have hslot : p.slots[id]? = some (.combinator id) := by
    rw [← Array.getElem?_toList, h.slots_eq hnone, List.getElem?_map, List.getElem?_range hid]
    rfl
  exact Option.some_inj.mp (hg.symm.trans (h.positions id id hslot))

/-- Without poles, the route of a wire consists of its contacts. -/
theorem Routed.append_eq_contacts {trail : String → List Contact} (h : Routed site p trail)
    (hnone : p.poles = #[]) (wire : String) : trail wire ++ p.queue wire = site.contacts wire := by
  rw [← h.combinators wire]
  refine (List.filter_eq_self.mpr fun contact hcontact => ?_).symm
  cases contact with
  | combinator id side => rfl
  | pole i =>
    have hcount := h.poles wire i
    simp only [hnone, List.getElem?_toArray, List.getElem?_nil, Option.map_none,
      Option.getD_none] at hcount
    exact absurd hcontact (List.count_eq_zero.mp hcount)

/-! ### No wire is in danger

This takes widths whose numbers fit in words, and no more combinators than a memory has room for:
then each slot reaches the end of its window. -/

section

variable (hwidth : 2 ≤ site.width) (hfits : site.Fits)
  (hsize : site.connections.size ≤ memoryLimit) (hnear : ContactsNear site.contacts site.width)

include hwidth hfits hsize hnear

/-- Where contacts are near, an open wire reaches its next combinator. -/
theorem Reached.endangered_eq_nil (h : Reached site p) (hnone : p.poles = #[]) :
    endangered site p = [] := by
  have hpos : 0 < site.width := Nat.lt_of_lt_of_le Nat.two_pos hwidth
  have hfilled := h.filled hpos
  refine List.eq_nil_iff_forall_not_mem.mpr fun d hd => ?_
  obtain ⟨e, j, hthreat⟩ := mem_endangered.mp hd
  obtain ⟨side', rest, hwaits⟩ := hthreat.waits
  obtain ⟨trail, hrouted⟩ := h.exists_routed
  -- The open end and the combinator ahead follow each other on the wire.
  have hlast : (trail d.wire).getLast? = some e.contact := by
    have hopen := hrouted.openEnds d.wire
    rw [hthreat.opened, hwaits, if_neg (List.cons_ne_nil _ _)] at hopen
    exact hopen.symm
  obtain ⟨before, hbefore⟩ := List.getLast?_eq_some_iff.mp hlast
  have hcontacts := hrouted.append_eq_contacts hnone d.wire
  rw [hbefore, hwaits] at hcontacts
  obtain ⟨hcell, hslot⟩ := (h.located hpos).openEnds d.wire e hthreat.opened
  cases hcontact : e.contact with
  | pole i =>
    rw [hcontact] at hcell
    change (p.poles[i]?).map (·.position) = _ at hcell
    simp [hnone] at hcell
  | combinator i side =>
    have hrows : j / site.width - i / site.width < site.width :=
      hnear d.wire i side j side' ⟨before, rest, by rw [← hcontacts, hcontact]; simp⟩
    -- The open end is in the row of its number, so its reach is that of this slot.
    rw [hcontact] at hcell
    have hrow : e.slot / site.width = i / site.width :=
      congrArg GridPosition.y (hfilled.eq_ofSlot (h.located hpos) hnone hcell)
    have hle : j ≤ windowEnd site.width e.slot := le_windowEnd_of_row_sub_lt hpos (hrow ▸ hrows)
    have hroom : e.slot ≤ memoryLimit := by
      have hplaced := hfilled.next_le
      rw [hfilled.size_slots hnone] at hslot
      omega
    have hfar := hthreat.far
    rw [hthreat.reach_eq, hfits.reach_eq hwidth hroom, h.agrees.schedule_eq_nil hnone, predict_nil,
      hfilled.size_slots hnone, Nat.add_sub_of_le hthreat.ahead] at hfar
    exact absurd hle (Nat.not_le_of_lt hfar)

omit hwidth hfits hsize hnear in

theorem settle_eq_ok (h : endangered site p = []) (left : Nat) : settle site left p = .ok p := by
  cases left with
  | zero => simp [settle, h]
  | succ left => simp [settle, h]

omit hwidth hfits hsize hnear in
/-- Without poles, and with no wire in danger, the next slot is filled with the next combinator. -/
theorem exists_fill_of_safe (hsite : site.Colored) (h : Reached site p) (hnone : p.poles = #[])
    (hsafe : endangered site p = []) (run : Nat) :
    ∃ q, fill site p run = .ok (q, 0) ∧ placeCombinator site p.expire = .ok q ∧ q.poles = #[] := by
  have hsettled := settle_eq_ok (p := p.expire) hsafe (roundLimit site)
  have hschedule : p.expire.schedule = [] := h.agrees.schedule_eq_nil hnone
  obtain ⟨q, hq⟩ := exists_placeCombinator hsite p.expire
  refine ⟨q, ?_, hq, ?_⟩
  · simp only [fill, hsettled, hschedule, hq, bind, Except.bind, List.find?_nil]
    rfl
  · rw [placeCombinator_eq] at hq
    obtain ⟨queues, openEnds, segments, rfl⟩ := connectEach_frame hq
    exact hnone

/-- Where contacts are near, the next slot is filled with the next combinator. -/
theorem exists_fill (hsite : site.Colored) (h : Reached site p) (hnone : p.poles = #[]) (run : Nat) :
    ∃ q, fill site p run = .ok (q, 0) ∧ q.poles = #[] := by
  have hsafe := h.endangered_eq_nil hwidth hfits hsize hnear hnone
  obtain ⟨q, hq, -, hnone'⟩ := exists_fill_of_safe hsite h hnone hsafe run
  exact ⟨q, hq, hnone'⟩

/-- Where contacts are near, the pass ends, and without poles. -/
theorem exists_complete (hsite : site.Colored) (h : Reached site p) (hnone : p.poles = #[])
    (run : Nat) : ∃ q, complete site p run = .ok q ∧ q.poles = #[] := by
  fun_induction complete site p run with
  | case1 p run hnext fault hfill =>
    obtain ⟨q, hq, -⟩ := exists_fill hwidth hfits hsize hnear hsite h hnone run
    rw [hq] at hfill
    cases hfill
  | case2 p run hnext q run' hfill ih =>
    obtain ⟨q', hq', hnone'⟩ := exists_fill hwidth hfits hsize hnear hsite h hnone run
    have hreached : Reached site q := h.fill hnext hfill
    rw [hq'] at hfill
    cases hfill
    exact ih hreached hnone'
  | case3 p run hnext => exact ⟨p, rfl, hnone⟩

end

/-! ### No segment is too long -/

/-- Where the pass ends without poles, contacts are near. -/
theorem Reached.contactsNear (h : Reached site p) (hwidth : 0 < site.width)
    (hdone : site.connections.size ≤ p.next) (hnone : p.poles = #[]) :
    ContactsNear site.contacts site.width := by
  intro wire i side j side' hfollows
  obtain ⟨trail, hrouted⟩ := h.exists_routed
  have hcontacts := hrouted.append_eq_contacts hnone wire
  rw [h.agrees.queue_eq_nil hdone, List.append_nil] at hcontacts
  -- The two contacts are the ends of a segment.
  obtain ⟨before, rest, hpath⟩ := hfollows
  rw [← hcontacts] at hpath
  have hmem : (Contact.combinator i side, Contact.combinator j side') ∈
      (trail wire).zip (trail wire).tail := by
    refine List.mem_iff_getElem?.mpr ⟨before.length, ?_⟩
    rw [List.getElem?_zip_eq_some, List.getElem?_tail, ← hpath]
    simp
  rw [← hrouted.segments, List.mem_map] at hmem
  obtain ⟨s, hs, hends⟩ := hmem
  obtain ⟨d, hd, hlt⟩ := (h.located hwidth).segments s (by simpa using (List.mem_filter.mp hs).1)
  obtain ⟨hsource, htarget⟩ := Prod.mk.inj hends
  -- Both ends have positions, which are those of the slots of their numbers.
  rw [Layout.rowDistance?] at hd
  split at hd
  · next g g' hg hg' =>
    rw [hsource] at hg
    rw [htarget] at hg'
    obtain rfl := (h.filled hwidth).eq_ofSlot (h.located hwidth) hnone hg
    obtain rfl := (h.filled hwidth).eq_ofSlot (h.located hwidth) hnone hg'
    have heq : max (i / site.width) (j / site.width) - min (i / site.width) (j / site.width) = d :=
      Option.some_inj.mp hd
    omega
  · cases hd

end Placement

/-- Where the cube of the width fits in a word, and with overflow checks as without, a network whose
wires have colors is laid out with each combinator in the slot of its number, and without poles,
just if successive contacts are near in these slots. In this case the layout does not become too
large, and in the other one it has poles. -/
theorem Network.layout_without_poles_iff (n : Network) (settings : LayoutSettings)
    (colors : NameMap Color) (hcolored : (n.site settings colors).Colored)
    (hfits : (n.site settings colors).Fits) (hsize : n.nodes.length ≤ memoryLimit) :
    (n.site settings colors).layoutChecked.run = some (n.site settings colors).layout ∧
    ((∃ l, (n.site settings colors).layout = .ok l ∧ l.poles = #[] ∧
        l.slots.toList = (List.range n.nodes.length).map .combinator) ↔
      ContactsNear n.contacts (max settings.cliqueSize 2)) ∧
    (ContactsNear n.contacts (max settings.cliqueSize 2) →
      ∀ iterations slot, (n.site settings colors).layout ≠ .error (.tooComplex iterations slot)) ∧
    (¬ ContactsNear n.contacts (max settings.cliqueSize 2) →
      ∀ l, (n.site settings colors).layout = .ok l → 0 < l.poles.size) := by
  have hwidth := n.two_le_width_site settings colors
  have hpos := n.width_site_pos settings colors
  have hcontacts : (n.site settings colors).contacts = n.contacts :=
    funext fun wire => n.contacts_site settings colors wire
  have hnear : ∀ l, (n.site settings colors).layout = .ok l → l.poles = #[] →
      ContactsNear n.contacts (max settings.cliqueSize 2) := by
    intro l hl hnone
    obtain ⟨p, hp, hdone, rfl⟩ := Placement.exists_reached_of_layout hl
    exact hcontacts ▸ hp.contactsNear hpos hdone hnone
  have hdirect : ContactsNear n.contacts (max settings.cliqueSize 2) →
      ∃ l, (n.site settings colors).layout = .ok l ∧ l.poles = #[] ∧
        l.slots.toList = (List.range n.nodes.length).map .combinator := by
    intro hnear
    rw [← hcontacts] at hnear
    rw [← n.size_connections_site settings colors] at hsize
    obtain ⟨p, hp, hnone⟩ :=
      Placement.exists_complete hwidth hfits hsize hnear hcolored .initial rfl 0
    obtain ⟨hreached, hdone⟩ := Placement.Reached.initial.complete hp
    have hfilled := hreached.filled hpos
    refine ⟨p.toLayout _, by rw [Site.layout, hp]; rfl, hnone, ?_⟩
    rw [← n.size_connections_site settings colors, Nat.le_antisymm hdone hfilled.next_le]
    exact hfilled.slots_eq hnone
  refine ⟨hfits.run_layoutChecked, ⟨?_, hdirect⟩, fun h iterations slot heq => ?_,
    fun hfar l hl => ?_⟩
  · rintro ⟨l, hl, hnone, -⟩
    exact hnear l hl hnone
  · obtain ⟨l, hl, -⟩ := hdirect h
    rw [hl] at heq
    cases heq
  · by_contra hzero
    exact hfar (hnear l hl (Array.eq_empty_of_size_eq_zero (Nat.eq_zero_of_not_pos hzero)))

/-- Two combinators that share a wire, and some others between them. -/
def Network.pairApart (between : Nat) : Network :=
  let spacer : Node := ⟨.ofHeading "" 1, [], [], .nowhere, ∅⟩
  { Network.empty {} with
    nodes := { spacer with outputs := ["A"] } :: (List.replicate between spacer ++
      [{ spacer with inputs := ["A"] }]) }

theorem Network.colored_pairApart (between : Nat) (settings : LayoutSettings) :
    ((pairApart between).site settings (.ofList [("A", .red)])).Colored := by
  intro connections hmem c hc
  have hwire : c.wire = "A" := by
    simp only [site, Site.ofConnections, pairApart, List.mem_toArray, List.mem_map, List.mem_cons,
      List.mem_append, List.mem_replicate] at hmem
    obtain ⟨node, rfl | ⟨-, rfl⟩ | rfl | hnode, rfl⟩ := hmem
    · exact congrArg Connection.wire (List.mem_singleton.mp hc)
    · exact absurd hc List.not_mem_nil
    · exact congrArg Connection.wire (List.mem_singleton.mp hc)
    · cases hnode
  rw [hwire]
  show ((NameMap.ofList [("A", Color.red)]).get? "A").isSome = true
  decide

theorem Network.contacts_pairApart (between : Nat) (wire : String) :
    (pairApart between).contacts wire =
      if wire = "A" then [.combinator 0 .output, .combinator (between + 1) .input] else [] := by
  have hspacers : ∀ (spacer : Node) (start : Nat), spacer.inputs = [] → spacer.outputs = [] →
      ((List.replicate between spacer).zipIdx start).flatMap (fun e =>
        List.replicate (e.1.inputs.count wire) (Contact.combinator e.2 .input) ++
          List.replicate (e.1.outputs.count wire) (.combinator e.2 .output)) = [] := by
    intro spacer start hinputs houtputs
    refine List.flatMap_eq_nil_iff.mpr fun e he => ?_
    obtain rfl := List.eq_of_mem_replicate (List.fst_mem_of_mem_zipIdx he)
    simp [hinputs, houtputs]
  by_cases hw : wire = "A"
  · subst hw
    simp [contacts, pairApart, List.zipIdx_append, hspacers, Nat.add_comm]
  · have hw' : "A" ≠ wire := fun heq => hw heq.symm
    simp [contacts, pairApart, List.zipIdx_append, hspacers, hw, hw']

/-- The second combinator is in the row of the first one or near it if few are between them. -/
theorem Network.contactsNear_pairApart_iff (between width : Nat) :
    ContactsNear (pairApart between).contacts width ↔ (between + 1) / width < width := by
  constructor
  · intro hnear
    have hrows := hnear "A" 0 .output (between + 1) .input ⟨[], [], by
      rw [contacts_pairApart, if_pos rfl]
      rfl⟩
    rwa [Nat.zero_div, Nat.sub_zero] at hrows
  · intro hrows wire i side j side' hfollows
    rw [contacts_pairApart] at hfollows
    split at hfollows
    · cases hfollows.eq_of_length rfl
      rwa [Nat.zero_div, Nat.sub_zero]
    · cases List.eq_nil_of_infix_nil hfollows

/-- In rows of two, the fourth combinator is in the last slot within reach of the first one, and the
fifth one is behind it. -/
theorem Network.layout_without_poles_iff_pairApart :
    (∃ l, ((pairApart 2).site ⟨2, 5⟩ (.ofList [("A", .red)])).layoutChecked.run = some (.ok l) ∧
        l.poles = #[] ∧ l.slots.toList = (List.range 4).map .combinator) ∧
      ∃ l, ((pairApart 3).site ⟨2, 5⟩ (.ofList [("A", .red)])).layout = .ok l ∧
        0 < l.poles.size := by
  have hnear : ContactsNear (pairApart 2).contacts 2 :=
    (contactsNear_pairApart_iff 2 2).mpr (by decide)
  have hfar : ¬ ContactsNear (pairApart 3).contacts 2 := fun h =>
    absurd ((contactsNear_pairApart_iff 3 2).mp h) (by decide)
  constructor
  · obtain ⟨hchecked, hiff, -⟩ := layout_without_poles_iff (pairApart 2) ⟨2, 5⟩ _
      (colored_pairApart 2 _) (by decide) (by decide)
    obtain ⟨l, hl, hlayout⟩ := hiff.mpr hnear
    exact ⟨l, hchecked.trans (congrArg some hl), hlayout⟩
  · have hpoles : ((pairApart 3).site ⟨2, 5⟩ (.ofList [("A", .red)])).layout.toOption.map
        (·.poles.size) = some 1 := by decide +kernel
    obtain ⟨l, hl, -⟩ := Layout.exists_of_toOption hpoles
    exact ⟨l, hl, (layout_without_poles_iff (pairApart 3) ⟨2, 5⟩ _ (colored_pairApart 3 _)
      (by decide) (by decide)).2.2.2 hfar l hl⟩

/-- Rows so long that the end of the first window wraps around to its first slot. -/
def overlongRows : LayoutSettings := ⟨0x7fffffffffffffff, 5⟩

/-- In overlong rows two adjacent combinators that share a wire are out of reach of each other. A
build with overflow checks panics. -/
theorem Network.adjacent_tooComplex :
    let site := (pairApart 0).site overlongRows (.ofList [("A", .red)])
    site.Colored ∧ ContactsNear (pairApart 0).contacts (max overlongRows.cliqueSize 2) ∧
      site.layout = .error (.tooComplex 1 1) ∧ site.layoutChecked.run = none := by
  refine ⟨colored_pairApart 0 _, (contactsNear_pairApart_iff 0 _).mpr (by decide), ?_, ?_⟩
  · decide +kernel
  · decide +kernel

end CombinatorNet
