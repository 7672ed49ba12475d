import CombinatorNet.Network.Basic
import CombinatorNet.Proofs.Layout.Reached

/-!
# The route of a wire

The segments of a wire form one path through its contacts, with poles between them. In a state of
the pass the route consists of the trail already wound off and of the queue: placing a contact moves
it from the front of the queue to the end of the trail, and relaying a wire puts a pole between the
two.

## Main definitions

* `Network.contacts` — the contacts of a wire, in the order of the combinators
* `Layout.segmentsOf`, `Layout.Route` — the segments of a wire, and the path they make up

## Main results

* `Placement.Reached.exists_routed` — trails and queues make up the routes in all states of the pass
* `Network.exists_route` — in a layout every wire has a route through all its contacts
-/

namespace CombinatorNet

/-- Whether a contact is at a combinator. -/
def Contact.isCombinator : Contact → Bool
  | combinator _ _ => true
  | pole _ => false

/-- The contacts of a wire, in the order of the combinators, inputs before outputs. -/
def Network.contacts (n : Network) (wire : String) : List Contact :=
  n.nodes.zipIdx.flatMap fun e =>
    List.replicate (e.1.inputs.count wire) (.combinator e.2 .input) ++
      List.replicate (e.1.outputs.count wire) (.combinator e.2 .output)

/-- The ends of a segment. -/
def Segment.ends (s : Segment) : Contact × Contact := (s.source, s.target)

namespace Layout

/-- The segments of a wire, in the order in which they were drawn. -/
def segmentsOf (l : Layout) (wire : String) : List Segment :=
  l.segments.toList.filter fun s => s.wire = wire

/-- The poles that list a wire. -/
def polesOf (l : Layout) (wire : String) : List Pole :=
  l.poles.toList.filter fun pole => wire ∈ pole.wires

/-- The segments of a wire lead along a path from its first contact to its last one. The path meets
its contacts at combinators in their order, and each pole as often as the pole lists the wire, which
is at most once. -/
structure Route (l : Layout) (wire : String) (contacts path : List Contact) : Prop where
  segments : (l.segmentsOf wire).map Segment.ends = path.zip path.tail
  first : path.head? = contacts.head?
  last : path.getLast? = contacts.getLast?
  combinators : path.filter Contact.isCombinator = contacts
  poles : ∀ i : Nat, path.count (.pole i) =
    ((l.poles[i]?).map fun pole => pole.wires.count wire).getD 0
  once : ∀ i : Nat, path.count (.pole i) ≤ 1

end Layout

/-! ### Lists -/

private theorem zip_tail_concat {α : Type} (xs : List α) (x : α) :
    (xs ++ [x]).zip (xs ++ [x]).tail =
      xs.zip xs.tail ++ (xs.getLast?.map fun y => (y, x)).toList := by
  induction xs with
  | nil => rfl
  | cons y ys ih =>
    cases ys with
    | nil => rfl
    | cons z zs =>
      simp only [List.cons_append, List.tail_cons, List.zip_cons_cons] at ih ⊢
      rw [ih]
      simp

private theorem countP_modify {α : Type} {P : α → Bool} {xs : List α} {i : Nat} {x : α} {f : α → α}
    (hx : xs[i]? = some x) (hold : P x = false) (hnew : P (f x) = true) :
    (xs.modify i f).countP P = xs.countP P + 1 := by
  -- By induction down to the entry that is changed, which counts now and did not before.
  induction xs generalizing i with
  | nil => cases hx
  | cons y ys ih =>
    cases i with
    | zero =>
      obtain rfl : y = x := by simpa using hx
      simp [hold, hnew]
    | succ i =>
      rw [List.modify_succ_cons, List.countP_cons, List.countP_cons, ih (by simpa using hx)]
      omega

private theorem countP_modify_of_eq {α : Type} {P : α → Bool} {xs : List α} {i : Nat} {f : α → α}
    (h : ∀ x, P (f x) = P x) : (xs.modify i f).countP P = xs.countP P := by
  induction xs generalizing i with
  | nil => simp
  | cons y ys ih =>
    cases i with
    | zero => simp [List.countP_cons, h]
    | succ i => rw [List.modify_succ_cons, List.countP_cons, List.countP_cons, ih]

private theorem filter_map_wire (wires : List String) (side : Side) (id : Nat) (wire : String) :
    contactsIn wire id (wires.map (⟨·, side⟩)) =
      List.replicate (wires.count wire) (.combinator id side) := by
  induction wires with
  | nil => rfl
  | cons w rest ih =>
    rw [contactsIn] at ih
    by_cases hw : w = wire
    · simp [contactsIn, hw, ih, List.replicate_succ]
    · simp [contactsIn, hw, ih]

/-- A path with at most one contact at a combinator, which starts and ends like its contacts, has no
second contact. -/
theorem length_le_one_of_ends {path contacts : List Contact} (hfirst : path.head? = contacts.head?)
    (hlast : path.getLast? = contacts.getLast?)
    (hfilter : path.filter Contact.isCombinator = contacts) (hle : contacts.length ≤ 1) :
    path.length ≤ 1 := by
  cases path with
  | nil => exact Nat.zero_le _
  | cons c rest =>
    cases contacts with
    | nil => cases hfirst
    | cons c' more =>
      obtain rfl : c = c' := by simpa using hfirst
      obtain rfl : more = [] := List.length_eq_zero_iff.mp (by simpa using hle)
      -- The path starts with the only contact at a combinator.
      have hc : c.isCombinator = true := by
        have : c ∈ (c :: rest).filter Contact.isCombinator := by
          rw [hfilter]
          exact List.mem_cons_self
        exact (List.mem_filter.mp this).2
      rw [List.filter_cons_of_pos hc, List.cons.injEq] at hfilter
      -- A longer path would meet the contact again at its end.
      by_contra hlong
      have hne : rest ≠ [] := by
        rintro rfl
        exact hlong (Nat.le_refl _)
      rw [List.getLast?_cons, List.getLast?_singleton, Option.some_inj] at hlast
      have hmem : c ∈ rest := by
        rw [← hlast, List.getLast?_eq_some_getLast hne]
        exact List.getLast_mem hne
      have hnone := List.filter_eq_nil_iff.mp hfilter.2 c hmem
      exact hnone hc

/-- The contacts of a wire in a network are those of the site that is laid out. -/
theorem Network.contacts_site (n : Network) (settings : LayoutSettings) (colors : NameMap Color)
    (wire : String) : (n.site settings colors).contacts wire = n.contacts wire := by
  -- Node by node, the connections are those of the inputs and then those of the outputs.
  rw [Site.contacts_eq]
  show ((n.nodes.map Node.connections).toArray.toList.zipIdx.flatMap _) = _
  rw [List.zipIdx_map, List.flatMap_map, contacts]
  congr 1
  funext e
  have happend : ∀ xs ys, contactsIn wire e.2 (xs ++ ys) =
      contactsIn wire e.2 xs ++ contactsIn wire e.2 ys := by
    simp [contactsIn]
  show contactsIn wire e.2 (e.1.inputs.map _ ++ e.1.outputs.map _) = _
  rw [happend, filter_map_wire, filter_map_wire]

namespace Placement

variable {site : Site} {p q : Placement} {wire : String} {pole : Pole} {e : OpenEnd}
  {i id slot : Nat}

/-- The trail and the queue of each wire make up its route. -/
structure Routed (site : Site) (p : Placement) (trail : String → List Contact) : Prop where
  segments : ∀ wire, (p.segments.toList.filter fun s => s.wire = wire).map Segment.ends =
    (trail wire).zip (trail wire).tail
  openEnds : ∀ wire, (p.openEnds.get? wire).map (·.contact) =
    if p.queue wire = [] then none else (trail wire).getLast?
  first : ∀ wire, (trail wire ++ p.queue wire).head? = (site.contacts wire).head?
  last : ∀ wire, (trail wire ++ p.queue wire).getLast? = (site.contacts wire).getLast?
  combinators : ∀ wire,
    (trail wire ++ p.queue wire).filter Contact.isCombinator = site.contacts wire
  poles : ∀ wire (i : Nat), (trail wire ++ p.queue wire).count (.pole i) =
    ((p.poles[i]?).map fun pole => pole.wires.count wire).getD 0
  carriers : ∀ wire, (trail wire ++ p.queue wire).length =
    (site.contacts wire).length + p.poles.toList.countP fun pole => wire ∈ pole.wires

theorem routed_initial (site : Site) : Routed site (initial site) fun _ => [] where
  segments wire := rfl
  openEnds wire := by
    show none = ite _ _ _
    split <;> rfl
  first wire := by simp [queue_initial]
  last wire := by simp [queue_initial]
  combinators wire := by
    rw [List.nil_append, queue_initial, List.filter_eq_self]
    intro contact hcontact
    obtain ⟨id, side, rfl, -⟩ := Site.exists_of_mem_contactsFrom hcontact
    rfl
  poles wire i := by
    rw [List.nil_append, queue_initial]
    exact List.count_eq_zero.mpr Site.pole_notMem_contactsFrom
  carriers wire := by
    rw [List.nil_append, queue_initial]
    rfl

theorem Routed.addPole {trail : String → List Contact} (h : Routed site p trail) (slot : Nat) :
    Routed site (addPole site p slot) trail := by
  refine ⟨h.segments, h.openEnds, h.first, h.last, h.combinators, fun wire i => ?_, fun wire => ?_⟩
  · show (trail wire ++ p.queue wire).count (.pole i) = _
    rw [h.poles, poles_addPole]
    split
    · next hi => simp [hi]
    · rfl
  · show (trail wire ++ p.queue wire).length = _ + (p.poles.push _).toList.countP _
    rw [h.carriers, Array.toList_push, List.countP_append]
    simp

/-- A hop adds the wire once to its pole. -/
private theorem count_wires_route (hop : Hop site p wire pole e id) (w : String) (i : Nat) :
    (((p.route wire pole.index).poles[i]?).map fun r => r.wires.count w).getD 0 =
      ((p.poles[i]?).map fun r => r.wires.count w).getD 0 +
        if w = wire ∧ i = pole.index then 1 else 0 := by
  rw [poles_route]
  by_cases hi : pole.index = i
  · subst hi
    by_cases hw : wire = w
    · simp [hop.stored, hw]
    · have hw' : w ≠ wire := fun heq => hw heq.symm
      simp [hop.stored, hw, hw']
  · have hi' : i ≠ pole.index := fun heq => hi heq.symm
    cases hpole : p.poles[i]? <;> simp [hi, hi']

/-- A hop makes one pole more list the wire. -/
private theorem countP_poles_route (hop : Hop site p wire pole e id) (w : String) :
    (p.route wire pole.index).poles.toList.countP (fun r => w ∈ r.wires) =
      p.poles.toList.countP (fun r => w ∈ r.wires) + if w = wire then 1 else 0 := by
  have hstored : p.poles.toList[pole.index]? = some pole := by simpa using hop.stored
  show (p.poles.modify pole.index _).toList.countP _ = _
  rw [Array.toList_modify]
  by_cases hw : w = wire
  · subst hw
    rw [if_pos rfl]
    exact countP_modify hstored (by simp [hop.notMem]) (by simp)
  · rw [if_neg hw]
    exact countP_modify_of_eq fun r => by simp [hw]

/-- Relaying a wire puts a pole between its trail and its queue, neither of which is empty. -/
theorem Routed.route {trail : String → List Contact} (h : Routed site p trail)
    (hop : Hop site p wire pole e id) : Routed site (p.route wire pole.index) trail := by
  obtain ⟨side, rest, hwaits⟩ := hop.waits
  -- The wire is open, so its trail ends with a contact, and it waits for another one.
  have hlast : (trail wire).getLast? = some e.contact := by
    have := h.openEnds wire
    rw [hop.opened, hwaits, if_neg (List.cons_ne_nil _ _)] at this
    exact this.symm
  have htrail : trail wire ≠ [] := by
    intro hnil
    rw [hnil] at hlast
    cases hlast
  have hqueue := queue_route p wire pole.index
  -- The route of another wire is as it was; that of this one has a pole inside.
  refine ⟨h.segments, fun w => ?_, fun w => ?_, fun w => ?_, fun w => ?_, fun w i => ?_,
    fun w => ?_⟩
  · -- The wire was open before, and the pole keeps it waiting.
    rw [hqueue]
    by_cases hw : w = wire
    · subst hw
      have hopen := h.openEnds w
      rw [hwaits, if_neg (List.cons_ne_nil _ _)] at hopen
      rw [if_pos rfl, if_neg (List.cons_ne_nil _ _)]
      exact hopen
    · rw [if_neg hw]
      exact h.openEnds w
  · rw [hqueue, ← h.first]
    by_cases hw : w = wire
    · subst hw
      rw [if_pos rfl, List.head?_append_of_ne_nil _ htrail, List.head?_append_of_ne_nil _ htrail]
    · rw [if_neg hw]
  · rw [hqueue, ← h.last]
    by_cases hw : w = wire
    · subst hw
      rw [if_pos rfl, hwaits]
      simp
    · rw [if_neg hw]
  · rw [hqueue, ← h.combinators]
    by_cases hw : w = wire
    · subst hw
      simp [Contact.isCombinator]
    · rw [if_neg hw]
  · rw [hqueue, count_wires_route hop, ← h.poles]
    by_cases hw : w = wire
    · subst hw
      rw [if_pos rfl, List.count_append, List.count_cons, List.count_append, Nat.add_assoc]
      by_cases hi : pole.index = i
      · simp [hi]
      · have hi' : i ≠ pole.index := fun heq => hi heq.symm
        simp [hi, hi']
    · rw [if_neg hw, if_neg (fun hboth => hw hboth.1), Nat.add_zero]
  · rw [hqueue, countP_poles_route hop, ← Nat.add_assoc, ← h.carriers]
    by_cases hw : w = wire
    · subst hw
      rw [if_pos rfl, if_pos rfl, List.length_append, List.length_cons, List.length_append,
        Nat.add_assoc]
    · rw [if_neg hw, if_neg hw, Nat.add_zero]

/-- Placing a contact draws a segment to it from the open end of its wire. -/
private theorem segments_connect {contact : Contact} (hq : connect site slot p wire contact = .ok q)
    (w : String) : (q.segments.toList.filter fun s => s.wire = w).map Segment.ends =
      (p.segments.toList.filter fun s => s.wire = w).map Segment.ends ++
        if w = wire then
          (((p.openEnds.get? wire).map (·.contact)).map fun source => (source, contact)).toList
        else [] := by
  obtain ⟨segments, hdraw, hq⟩ := bind_eq_ok.mp hq
  have hsegments : q.segments = segments := by
    cases hq
    rfl
  rw [hsegments]
  rw [draw] at hdraw
  split at hdraw
  · next hclosed =>
    cases hdraw
    simp [hclosed]
  · next e hopen =>
    obtain ⟨color, -, hdraw⟩ := bind_eq_ok.mp hdraw
    cases hdraw
    by_cases hw : w = wire
    · subst hw
      simp [hopen, Segment.ends]
    · have hw' : wire ≠ w := fun heq => hw heq.symm
      simp [hw, hw']

/-- Placing a contact moves it from the queue to the trail. -/
theorem Routed.connect {trail : String → List Contact} {contact : Contact}
    (h : Routed site p trail) (hqueue : [contact] <+: p.queue wire)
    (hq : connect site slot p wire contact = .ok q) :
    Routed site q (Function.update trail wire (trail wire ++ [contact])) := by
  obtain ⟨rest, hcons⟩ := hqueue
  change contact :: rest = p.queue wire at hcons
  have hqueues := queue_connect hq
  have hends := openEnds_connect hq
  rw [← hcons] at hqueues hends
  -- The route stays as it is, and so does all that is said of it.
  have hroute : ∀ w, Function.update trail wire (trail wire ++ [contact]) w ++ q.queue w =
      trail w ++ p.queue w := by
    intro w
    rw [hqueues]
    by_cases hw : w = wire
    · subst hw
      rw [Function.update_self, if_pos rfl, ← hcons]
      simp
    · rw [Function.update_of_ne hw, if_neg hw]
  have hpoles : q.poles = p.poles := by
    obtain ⟨queues, openEnds, segments, rfl⟩ := connect_frame hq
    rfl
  refine ⟨fun w => ?_, fun w => ?_, fun w => ?_, fun w => ?_, fun w => ?_, fun w i => ?_,
    fun w => ?_⟩
  · -- The wire waits for the contact, so its open end is the end of its trail.
    have hlast := h.openEnds wire
    rw [← hcons, if_neg (List.cons_ne_nil _ _)] at hlast
    rw [segments_connect hq, h.segments, hlast]
    by_cases hw : w = wire
    · subst hw
      rw [Function.update_self, zip_tail_concat, if_pos rfl]
    · rw [Function.update_of_ne hw, if_neg hw, List.append_nil]
  · rw [hends, hqueues]
    by_cases hw : w = wire
    · subst hw
      rw [Function.update_self, if_pos rfl, if_pos rfl, List.getLast?_concat]
      change Option.map _ (if rest = [] then none else some _) = if rest = [] then none else _
      split <;> rfl
    · rw [Function.update_of_ne hw, if_neg hw, if_neg hw]
      exact h.openEnds w
  · rw [hroute]
    exact h.first w
  · rw [hroute]
    exact h.last w
  · rw [hroute]
    exact h.combinators w
  · rw [hroute, hpoles]
    exact h.poles w i
  · rw [hroute, hpoles]
    exact h.carriers w

/-- Behind a contact that is placed, the contacts that are left are in front of their queues. -/
theorem Routed.connect_front {trail : String → List Contact} {contact : Contact}
    {rest : List (String × Contact)} (h : Routed site p trail)
    (hfront : ∀ w, contactsOf w ((wire, contact) :: rest) <+: p.queue w)
    (hq : Placement.connect site slot p wire contact = .ok q) :
    Routed site q (Function.update trail wire (trail wire ++ [contact])) ∧
      ∀ w, contactsOf w rest <+: q.queue w := by
  have hcontact := hfront wire
  rw [contactsOf_cons, if_pos rfl] at hcontact
  refine ⟨h.connect ((List.prefix_append [contact] _).trans hcontact) hq, fun w => ?_⟩
  rw [queue_connect hq]
  by_cases hw : w = wire
  · subst hw
    rw [if_pos rfl]
    obtain ⟨more, hmore⟩ := hcontact
    exact ⟨more, by rw [← hmore]; rfl⟩
  · have hrest := hfront w
    rw [contactsOf_cons, if_neg (fun heq => hw heq.symm)] at hrest
    rw [if_neg hw]
    exact hrest

/-- Contacts in front of the queues of their wires are placed one after the other. -/
theorem Routed.connectEach {trail : String → List Contact} {placed : List (String × Contact)}
    (h : Routed site p trail) (hfront : ∀ wire, contactsOf wire placed <+: p.queue wire)
    (hq : connectEach site slot p placed = .ok q) : ∃ trail', Routed site q trail' := by
  have hend := connectEach_induction hq
    (I := fun rest r => (∃ trail', Routed site r trail') ∧
      ∀ wire, contactsOf wire rest <+: r.queue wire) ⟨⟨trail, h⟩, hfront⟩ ?_
  · exact hend.1
  rintro wire contact rest r r' ⟨⟨trail, h⟩, hfront⟩ hr
  obtain ⟨h', hfront'⟩ := h.connect_front hfront hr
  exact ⟨⟨_, h'⟩, hfront'⟩

/-- Entering a slot with a pole leaves the routes as they are. -/
theorem Routed.enterPole {trail : String → List Contact} (h : Routed site p trail) (i : Nat) :
    Routed site (p.enterPole i) trail :=
  ⟨h.segments, h.openEnds, h.first, h.last, h.combinators, h.poles, h.carriers⟩

theorem Routed.enterCombinator {trail : String → List Contact} (h : Routed site p trail) :
    Routed site (enterCombinator site p) trail :=
  ⟨h.segments, h.openEnds, h.first, h.last, h.combinators, h.poles, h.carriers⟩

/-- In every state of the pass, trails and queues make up the routes. -/
theorem Reached.exists_routed (h : Reached site p) : ∃ trail, Routed site p trail := by
  induction h with
  | initial => exact ⟨_, routed_initial site⟩
  | expire _ ih =>
    obtain ⟨trail, h⟩ := ih
    exact ⟨trail, h.segments, h.openEnds, h.first, h.last, h.combinators, h.poles, h.carriers⟩
  | merge _ hop ih =>
    obtain ⟨trail, h⟩ := ih
    exact ⟨trail, h.route hop⟩
  | splice _ _ _ _ hop ih =>
    obtain ⟨trail, h⟩ := ih
    exact ⟨trail, (h.addPole _).route hop⟩
  | placePole hp _ hi hq ih =>
    obtain ⟨trail, h⟩ := ih
    exact (h.enterPole _).connectEach (hp.agrees.poleContacts_inFront hi) hq
  | placeCombinator hp _ hfree hnext hq ih =>
    obtain ⟨trail, h⟩ := ih
    exact h.enterCombinator.connectEach (hp.agrees.nextContacts_inFront hnext hfree) hq

/-- When all combinators are placed, no contact is left in a queue. -/
theorem Agrees.queue_eq_nil (h : Agrees site p) (hdone : site.connections.size ≤ p.next)
    (wire : String) : p.queue wire = [] := by
  rcases h.queue wire with hqueue | ⟨pole, e, id, -, hr⟩
  · rw [hqueue, Site.contactsFrom_of_le hdone]
  · obtain ⟨side, rest, hwaits⟩ := hr.waits
    rw [Site.contactsFrom_of_le hdone] at hwaits
    cases hwaits

/-- When no contact of a wire is left, its trail is its route. -/
theorem Routed.trail_route {trail : String → List Contact} (h : Routed site p trail)
    (hagrees : Agrees site p) (hqueue : p.queue wire = []) :
    (p.toLayout site).Route wire (site.contacts wire) (trail wire) := by
  have hwhole : trail wire ++ p.queue wire = trail wire := by rw [hqueue, List.append_nil]
  have hpoles := h.poles wire
  rw [hwhole] at hpoles
  refine ⟨h.segments wire, hwhole ▸ h.first wire, hwhole ▸ h.last wire, hwhole ▸ h.combinators wire,
    hpoles, fun i => ?_⟩
  rw [hpoles]
  cases hpole : p.poles[i]? with
  | none => exact Nat.zero_le _
  | some pole => exact List.nodup_iff_count_le_one.mp (hagrees.nodup_wires i pole hpole) wire

theorem Routed.length_trail {trail : String → List Contact} (h : Routed site p trail)
    (hqueue : p.queue wire = []) : (trail wire).length =
      (site.contacts wire).length + ((p.toLayout site).polesOf wire).length := by
  have hcarriers := h.carriers wire
  rw [hqueue, List.append_nil, List.countP_eq_length_filter] at hcarriers
  exact hcarriers

end Placement

/-- A path has one segment less than contacts. -/
theorem Layout.Route.length_segmentsOf {l : Layout} {wire : String} {contacts path : List Contact}
    (h : l.Route wire contacts path) : (l.segmentsOf wire).length = path.length - 1 := by
  have hlength := congrArg List.length h.segments
  rw [List.length_map, List.length_zip, List.length_tail,
    Nat.min_eq_right (Nat.sub_le _ _)] at hlength
  exact hlength

theorem Layout.Route.length_le {l : Layout} {wire : String} {contacts path : List Contact}
    (h : l.Route wire contacts path) (hle : contacts.length ≤ 1) : path.length ≤ 1 :=
  length_le_one_of_ends h.first h.last h.combinators hle

/-- In a layout the segments of a wire lead along a path through its contacts in their order and
through the poles that list it. They are one less than the contacts, and one more for each pole. -/
theorem Network.exists_route (n : Network) (settings : LayoutSettings) (colors : NameMap Color)
    {l : Layout} (h : (n.site settings colors).layout = .ok l) (wire : String) :
    (∃ path, l.Route wire (n.contacts wire) path) ∧
      (l.segmentsOf wire).length = (n.contacts wire).length - 1 + (l.polesOf wire).length ∧
      ((n.contacts wire).length ≤ 1 → l.segmentsOf wire = []) := by
  obtain ⟨p, hp, hdone, rfl⟩ := Placement.exists_reached_of_layout h
  obtain ⟨trail, hrouted⟩ := hp.exists_routed
  have hqueue := hp.agrees.queue_eq_nil hdone wire
  have hroute := hrouted.trail_route hp.agrees hqueue
  have hlength := hrouted.length_trail hqueue
  rw [Network.contacts_site] at hroute hlength
  refine ⟨⟨trail wire, hroute⟩, ?_, fun hle => ?_⟩
  · rw [hroute.length_segmentsOf, hlength]
    cases hcontacts : n.contacts wire with
    | nil =>
      -- A wire without contacts has no trail, and so no pole either.
      have hfirst := hroute.first
      rw [hcontacts] at hfirst hlength
      rw [List.head?_eq_none_iff.mp hfirst] at hlength
      simp only [List.length_nil] at hlength ⊢
      omega
    | cons c rest =>
      simp only [List.length_cons]
      omega
  · have hshort := hroute.length_le hle
    refine List.length_eq_zero_iff.mp ?_
    rw [hroute.length_segmentsOf]
    omega

/-- A combinator that reads what it writes, and a reader of the same wire four combinators later. -/
def Network.distantFeedback : Network :=
  let spacer : Node := ⟨.ofHeading "" 1, [], [], .nowhere, ∅⟩
  { Network.empty {} with
    nodes := [{ spacer with inputs := ["A"], outputs := ["A"] }, spacer, spacer, spacer, spacer,
      { spacer with inputs := ["A"] }] }

theorem Network.exists_route_distantFeedback :
    ∃ l, (distantFeedback.site ⟨2, 5⟩ (.ofList [("A", .red)])).layout = .ok l ∧ l.poles.size = 2 ∧
      distantFeedback.contacts "A" =
        [.combinator 0 .input, .combinator 0 .output, .combinator 5 .input] ∧
      (∃ path, l.Route "A" (distantFeedback.contacts "A") path) ∧
      (l.segmentsOf "A").length =
        (distantFeedback.contacts "A").length - 1 + (l.polesOf "A").length ∧
      ((distantFeedback.contacts "A").length ≤ 1 → l.segmentsOf "A" = []) := by
  have hsize : (distantFeedback.site ⟨2, 5⟩ (.ofList [("A", .red)])).layout.toOption.map
      (·.poles.size) = some 2 := by decide +kernel
  cases hl : (distantFeedback.site ⟨2, 5⟩ (.ofList [("A", .red)])).layout with
  | error e => rw [hl] at hsize; cases hsize
  | ok l =>
    rw [hl] at hsize
    exact ⟨l, rfl, Option.some_inj.mp hsize, by decide,
      exists_route distantFeedback ⟨2, 5⟩ _ hl "A"⟩

end CombinatorNet
