import CombinatorNet.Proofs.Layout.Direct

/-!
# One more combinator

A combinator whose wires are on no other one is placed behind all others, and they are placed as they
would be without it. Until then the pass goes through the same states, except that some queues hold
contacts of the last combinator: no wire with such a queue is open, so none is relayed or drawn. When
all others are placed, nothing is open or scheduled, so the next slot is free for it.

## Main definitions

* `Site.Appends` — a site with one more combinator
* `Placement.Alongside` — a state of the pass, and the one with the last combinator ahead
* `Layout.Appends` — a layout with one more combinator

## Main results

* `Placement.Alongside.fill`, `Placement.Alongside.complete` — the pass with the last combinator
  ahead goes along
* `Site.Appends.layout` — the layout with the last combinator
-/

namespace CombinatorNet

/-! ### Sites -/

theorem Node.map_wire_connections (node : Node) :
    node.connections.map (·.wire) = node.inputs ++ node.outputs := by
  simp [connections, Function.comp_def]

/-- A site with one more combinator. Its wires have no contacts on the others, and all other wires
have the same colors. -/
structure Site.Appends (site : Site) (added : List Connection) (site' : Site) : Prop where
  width : site'.width = site.width
  window : site'.window = site.window
  connections : site'.connections = site.connections.push added
  colors : ∀ wire, wire ∉ added.map (·.wire) → site'.colors.get? wire = site.colors.get? wire
  apart : ∀ wire ∈ added.map (·.wire), site.contacts wire = []

namespace Site.Appends

variable {site site' : Site} {added : List Connection} {wire : String}

theorem contactsIn_eq_nil (h : site.Appends added site') (hwire : site.contacts wire ≠ [])
    (id : Nat) : contactsIn wire id added = [] := by
  rw [contactsIn, List.map_eq_nil_iff, List.filter_eq_nil_iff]
  intro c hc heq
  exact hwire (h.apart wire (List.mem_map.mpr ⟨c, hc, of_decide_eq_true heq⟩))

theorem contacts (h : site.Appends added site') (wire : String) : site'.contacts wire =
    site.contacts wire ++ contactsIn wire site.connections.size added := by
  rw [contacts_eq, contacts_eq, h.connections, Array.toList_push, List.zipIdx_append,
    List.flatMap_append, Array.length_toList]
  simp

/-- Wires with contacts are not those of the last combinator, so they keep their colors. -/
theorem get?_colors (h : site.Appends added site') (hwire : site.contacts wire ≠ []) :
    site'.colors.get? wire = site.colors.get? wire :=
  h.colors wire fun hmem => hwire (h.apart wire hmem)

theorem colorOf_eq (h : site.Appends added site') (hwire : site.contacts wire ≠ []) :
    Placement.colorOf site' wire = Placement.colorOf site wire := by
  rw [Placement.colorOf, Placement.colorOf, h.get?_colors hwire]

theorem roundLimit_eq (h : site.Appends added site') :
    Placement.roundLimit site' = Placement.roundLimit site := by
  rw [Placement.roundLimit, Placement.roundLimit, h.width]

theorem runLimit_eq (h : site.Appends added site') :
    Placement.runLimit site' = Placement.runLimit site := by
  rw [Placement.runLimit, Placement.runLimit, h.width]

theorem getD_connections (h : site.Appends added site') {id : Nat}
    (hid : id < site.connections.size) :
    site'.connections.getD id [] = site.connections.getD id [] := by
  rw [h.connections, Array.getD_eq_getD_getElem?, Array.getD_eq_getD_getElem?,
    Array.getElem?_push_lt hid, Array.getElem?_eq_getElem hid]

end Site.Appends

namespace Placement

variable {site site' : Site} {added : List Connection} {p p' q : Placement} {wire : String}

/-- A wire of the next combinator has a contact. -/
theorem contacts_ne_nil_of_mem_nextContacts (hnext : p.next < site.connections.size) :
    ∀ c ∈ nextContacts site p, site.contacts c.1 ≠ [] := by
  rw [nextContacts, List.forall_mem_map]
  intro c hc hnil
  rw [Array.getD_eq_getD_getElem?, Array.getElem?_eq_getElem hnext] at hc
  have hmem : Contact.combinator p.next c.side ∈ site.contacts c.wire := by
    rw [Site.contacts_eq, List.mem_flatMap]
    refine ⟨(site.connections[p.next], p.next), ?_, ?_⟩
    · rw [List.mem_zipIdx_iff_getElem?]
      simp [hnext]
    · exact List.mem_map.mpr ⟨c, List.mem_filter.mpr ⟨hc, decide_eq_true rfl⟩, rfl⟩
  rw [hnil] at hmem
  cases hmem

/-- An open wire has contacts. -/
theorem Reached.contacts_ne_nil_of_open (h : Reached site p) {e : OpenEnd}
    (hopen : p.openEnds.get? wire = some e) : site.contacts wire ≠ [] := by
  obtain ⟨trail, hrouted⟩ := h.exists_routed
  intro hnil
  have hjoins := hrouted.joins hopen
  rw [hnil] at hjoins
  cases hjoins

/-- An open wire is on combinators, so it has a color where all wires there do. -/
theorem Reached.isSome_of_open (h : Reached site p) (hcolored : site.Colored) {e : OpenEnd}
    (hopen : p.openEnds.get? wire = some e) : (site.colors.get? wire).isSome := by
  obtain ⟨contact, hcontact⟩ := List.exists_mem_of_ne_nil _ (h.contacts_ne_nil_of_open hopen)
  obtain ⟨connections, hconnections, c, hc, rfl⟩ := Site.exists_connection_of_contacts hcontact
  exact hcolored connections hconnections c hc

/-- A wire that is listed by a pole has contacts. -/
theorem Reached.contacts_ne_nil_of_pole (h : Reached site p) {i : Nat} {pole : Pole}
    (hpole : p.poles[i]? = some pole) (hwire : wire ∈ pole.wires) : site.contacts wire ≠ [] := by
  obtain ⟨trail, hrouted⟩ := h.exists_routed
  intro hnil
  have hfirst := hrouted.first wire
  have hcount := hrouted.poles wire i
  -- A route without contacts is empty, but this one passes the pole.
  rw [hnil, List.head?_nil, List.head?_eq_none_iff] at hfirst
  rw [hfirst, hpole, List.count_nil] at hcount
  exact List.count_eq_zero.mp hcount.symm hwire

theorem Reached.contacts_ne_nil_of_mem_poleContacts (h : Reached site p) (i : Nat) :
    ∀ c ∈ p.poleContacts i, site.contacts c.1 ≠ [] := by
  rw [poleContacts, List.forall_mem_map]
  intro w hw
  cases hpole : p.poles[i]? with
  | none => rw [hpole] at hw; cases hw
  | some pole =>
    rw [hpole] at hw
    exact h.contacts_ne_nil_of_pole hpole hw

/-! ### States of the pass -/

/-- The same state of the pass, except that the queues also hold the contacts of the combinator that
is placed last. -/
structure Alongside (site : Site) (added : List Connection) (p p' : Placement) : Prop where
  same : ∃ queues, p' = { p with queues }
  queue : ∀ wire, p'.queue wire = p.queue wire ++ contactsIn wire site.connections.size added

theorem alongside_initial (h : site.Appends added site') :
    Alongside site added (initial site) (initial site') where
  same := ⟨_, rfl⟩
  queue wire := by rw [queue_initial, queue_initial, h.contacts]

namespace Alongside

variable (h : Alongside site added p p') (hsite : site.Appends added site')
include h

theorem queue_eq (hsite : site.Appends added site') (hwire : site.contacts wire ≠ []) :
    p'.queue wire = p.queue wire := by
  rw [h.queue, hsite.contactsIn_eq_nil hwire, List.append_nil]

theorem expire : Alongside site added p.expire p'.expire := by
  obtain ⟨⟨queues, rfl⟩, hqueue⟩ := h
  exact ⟨⟨queues, rfl⟩, hqueue⟩

theorem route (wire : String) (i : Nat) :
    Alongside site added (p.route wire i) (p'.route wire i) := by
  constructor
  · obtain ⟨queues, rfl⟩ := h.same
    exact ⟨_, rfl⟩
  · intro wire'
    rw [queue_route, queue_route]
    split
    · next heq => rw [h.queue, heq, List.cons_append]
    · exact h.queue wire'

theorem addPole (hsite : site.Appends added site') (slot : Nat) :
    Alongside site added (addPole site p slot) (addPole site' p' slot) := by
  obtain ⟨⟨queues, rfl⟩, hqueue⟩ := h
  refine ⟨⟨queues, ?_⟩, hqueue⟩
  rw [Placement.addPole, Placement.addPole, hsite.width, hsite.window]

/-! ### Relaying -/

include hsite

/-- Only open wires are in danger, and their queues are the same. -/
theorem endangered (hp : Reached site p) : endangered site' p' = endangered site p := by
  have hdanger : ∀ e ∈ p.openEnds.toList, danger? site' p' e.1 e.2 = danger? site p e.1 e.2 := by
    intro e he
    have hqueue := h.queue_eq hsite (hp.contacts_ne_nil_of_open (NameMap.mem_toList_iff.mp he))
    obtain ⟨queues, rfl⟩ := h.same
    rw [danger?, danger?, hqueue, hsite.width]
  rw [Placement.endangered, Placement.endangered, ← List.filterMap_congr hdanger]
  obtain ⟨queues, rfl⟩ := h.same
  rfl

/-- The wires of the poles have their colors, so the same pole has room for a wire. -/
theorem mergeable? (hp : Reached site p) (wire : String) (color : Color) (first last : Nat) :
    mergeable? site' p' wire color first last = mergeable? site p wire color first last := by
  have hroom : ∀ pole ∈ p.recent.filterMap fun i => p.poles[i]?,
      hasRoom site' wire color pole = hasRoom site wire color pole := by
    intro pole hpole
    obtain ⟨i, -, hi⟩ := List.mem_filterMap.mp hpole
    rw [hasRoom, hasRoom]
    congr 3
    refine List.countP_congr fun w hw => ?_
    rw [hsite.get?_colors (hp.contacts_ne_nil_of_pole hi hw)]
  obtain ⟨queues, rfl⟩ := h.same
  rw [Placement.mergeable?, Placement.mergeable?]
  refine List.foldl_ext _ _ _ fun best pole hpole => ?_
  rw [hroom pole hpole]

theorem relay (hp : Reached site p) {d : Endangered} (hwire : site.contacts d.wire ≠ [])
    {round : Nat} (hq : relay site round p d = .ok q) :
    ∃ q', relay site' round p' d = .ok q' ∧ Alongside site added q q' := by
  obtain ⟨color, hcolor, hq⟩ := bind_eq_ok.mp hq
  have hmerge := h.mergeable? hsite hp d.wire color p.slots.size d.reach
  have halong := h
  obtain ⟨queues, rfl⟩ := h.same
  rw [← hsite.colorOf_eq hwire] at hcolor
  split at hq
  · next pole hpole =>
    cases hq
    refine ⟨_, bind_eq_ok.mpr ⟨color, hcolor, ?_⟩, halong.route d.wire pole.index⟩
    rw [hmerge, hpole]
    rfl
  · next hnone =>
    split at hq
    · next slot hslot =>
      cases hq
      refine ⟨_, bind_eq_ok.mpr ⟨color, hcolor, ?_⟩,
        (halong.addPole hsite slot).route d.wire p.poles.size⟩
      simp only [hmerge, hnone, hslot]
      rfl
    · cases hq

theorem relayEach (hp : Reached site p) {ds : List Endangered}
    (hds : ∀ d ∈ ds, ∃ e id, Threatened site p d e id) (hnodup : (ds.map (·.wire)).Nodup)
    {round : Nat} (hq : relayEach site round p ds = .ok q) :
    ∃ q', relayEach site' round p' ds = .ok q' ∧ Alongside site added q q' := by
  induction ds generalizing p p' with
  | nil =>
    cases hq
    exact ⟨p', rfl, h⟩
  | cons d rest ih =>
    obtain ⟨mid, hmid, hq⟩ := bind_eq_ok.mp hq
    obtain ⟨e, id, hd⟩ := hds d List.mem_cons_self
    obtain ⟨mid', hmid', halong⟩ := h.relay hsite hp (hp.contacts_ne_nil_of_open hd.opened) hmid
    obtain ⟨hreached, hds', hnodup'⟩ := hp.relay_first hds hnodup hmid
    obtain ⟨q', hq', halong'⟩ := ih halong hreached hds' hnodup' hq
    exact ⟨q', bind_eq_ok.mpr ⟨mid', hmid', hq'⟩, halong'⟩

theorem settle (hp : Reached site p) {left : Nat} (hq : settle site left p = .ok q) :
    ∃ q', settle site' left p' = .ok q' ∧ Alongside site added q q' := by
  induction left generalizing p p' with
  | zero =>
    rw [Placement.settle] at hq
    rw [Placement.settle, h.endangered hsite hp]
    split at hq
    · next hnone =>
      cases hq
      exact ⟨p', if_pos hnone, h⟩
    · cases hq
  | succ left ih =>
    rw [Placement.settle] at hq
    rw [Placement.settle, h.endangered hsite hp]
    split at hq
    · cases hq
      exact ⟨p', rfl, h⟩
    · obtain ⟨mid, hmid, hq⟩ := bind_eq_ok.mp hq
      have hds : ∀ d ∈ Placement.endangered site p, ∃ e id, Threatened site p d e id :=
        fun d hd => mem_endangered.mp hd
      have hnodup := nodup_endangered site p
      obtain ⟨mid', hmid', halong⟩ := h.relayEach hsite hp hds hnodup hmid
      obtain ⟨q', hq', halong'⟩ := ih halong (hp.relayEach hds hnodup hmid) hq
      rw [hsite.roundLimit_eq]
      exact ⟨q', bind_eq_ok.mpr ⟨mid', hmid', hq'⟩, halong'⟩

/-! ### Filling slots -/

theorem connect (hwire : site.contacts wire ≠ []) {slot : Nat} {contact : Contact}
    (hq : connect site slot p wire contact = .ok q) :
    ∃ q', connect site' slot p' wire contact = .ok q' ∧ Alongside site added q q' := by
  have hqueue := h.queue_eq hsite hwire
  have hqueues := queue_connect hq
  obtain ⟨segments, hdraw, hq⟩ := bind_eq_ok.mp hq
  obtain ⟨queues, rfl⟩ := h.same
  have hdraw' : draw site' { p with queues } wire contact = .ok segments := by
    rw [draw, hsite.colorOf_eq hwire]
    exact hdraw
  have hq' : Placement.connect site' slot { p with queues } wire contact =
      .ok { q with queues := queues.insert wire (p.queue wire).tail } := by
    cases hq
    refine bind_eq_ok.mpr ⟨segments, hdraw', ?_⟩
    rw [hqueue]
    rfl
  refine ⟨_, hq', ⟨_, rfl⟩, fun wire' => ?_⟩
  rw [queue_connect hq', hqueues, hqueue]
  split
  · next heq => rw [heq, hsite.contactsIn_eq_nil hwire, List.append_nil]
  · exact h.queue wire'

theorem connectEach {placed : List (String × Contact)}
    (hplaced : ∀ c ∈ placed, site.contacts c.1 ≠ []) {slot : Nat}
    (hq : connectEach site slot p placed = .ok q) :
    ∃ q', connectEach site' slot p' placed = .ok q' ∧ Alongside site added q q' := by
  induction placed generalizing p p' with
  | nil =>
    cases hq
    exact ⟨p', rfl, h⟩
  | cons c rest ih =>
    obtain ⟨hc, hrest⟩ := List.forall_mem_cons.mp hplaced
    obtain ⟨mid, hmid, hq⟩ := bind_eq_ok.mp hq
    obtain ⟨mid', hmid', halong⟩ := h.connect hsite hc hmid
    obtain ⟨q', hq', halong'⟩ := ih halong hrest hq
    exact ⟨q', bind_eq_ok.mpr ⟨mid', hmid', hq'⟩, halong'⟩

theorem placePole (hp : Reached site p) {i : Nat} (hq : placePole site p i = .ok q) :
    ∃ q', placePole site' p' i = .ok q' ∧ Alongside site added q q' := by
  have hplaced := hp.contacts_ne_nil_of_mem_poleContacts i
  rw [placePole_eq] at hq
  obtain ⟨⟨queues, rfl⟩, hqueue⟩ := h
  have henter : Alongside site added (p.enterPole i) (enterPole { p with queues } i) :=
    ⟨⟨queues, rfl⟩, hqueue⟩
  exact henter.connectEach hsite hplaced hq

theorem placeCombinator (hnext : p.next < site.connections.size)
    (hq : placeCombinator site p = .ok q) :
    ∃ q', placeCombinator site' p' = .ok q' ∧ Alongside site added q q' := by
  have hplaced := contacts_ne_nil_of_mem_nextContacts hnext
  rw [placeCombinator_eq] at hq
  obtain ⟨⟨queues, rfl⟩, hqueue⟩ := h
  have henter : Alongside site added (enterCombinator site p)
      (enterCombinator site' { p with queues }) := by
    refine ⟨⟨queues, ?_⟩, hqueue⟩
    rw [enterCombinator, enterCombinator, hsite.width]
  have hcontacts : nextContacts site' { p with queues } = nextContacts site p := by
    rw [nextContacts, nextContacts]
    exact congrArg _ (hsite.getD_connections hnext)
  rw [placeCombinator_eq, hcontacts]
  exact henter.connectEach hsite hplaced hq

/-- As long as combinators are left, the same is done for the next slot. -/
theorem fill (hp : Reached site p) (hnext : p.next < site.connections.size) {run run' : Nat}
    (hq : fill site p run = .ok (q, run')) :
    ∃ q', fill site' p' run = .ok (q', run') ∧ Alongside site added q q' := by
  obtain ⟨mid, hmid, hq⟩ := bind_eq_ok.mp hq
  obtain ⟨mid', hmid', halong⟩ := h.expire.settle hsite hp.expire hmid
  obtain ⟨hreached, -⟩ := hp.expire.settle hmid
  have hnext' : mid.next < site.connections.size := by
    rw [next_settle hmid]
    exact hnext
  have hfind : mid'.schedule.find? (fun s => s.slot = mid'.slots.size) =
      mid.schedule.find? fun s => s.slot = mid.slots.size := by
    obtain ⟨queues, rfl⟩ := halong.same
    rfl
  rw [Placement.fill, hsite.roundLimit_eq]
  split at hq
  · next s hs =>
    obtain ⟨placed, hplaced, hq⟩ := bind_eq_ok.mp hq
    obtain ⟨placed', hplaced', halong'⟩ := halong.placePole hsite hreached hplaced
    split at hq
    · cases hq
    · next hshort =>
      cases hq
      refine ⟨placed', bind_eq_ok.mpr ⟨mid', hmid', ?_⟩, halong'⟩
      simp only [hfind, hs]
      refine bind_eq_ok.mpr ⟨placed', hplaced', ?_⟩
      rw [hsite.runLimit_eq, if_neg hshort]
      rfl
  · next hs =>
    obtain ⟨placed, hplaced, hq⟩ := bind_eq_ok.mp hq
    obtain ⟨placed', hplaced', halong'⟩ := halong.placeCombinator hsite hnext' hplaced
    cases hq
    refine ⟨placed', bind_eq_ok.mpr ⟨mid', hmid', ?_⟩, halong'⟩
    simp only [hfind, hs]
    exact bind_eq_ok.mpr ⟨placed', hplaced', rfl⟩

/-- The pass goes along until all combinators but the last one are placed, and goes on from
there. -/
theorem complete (hp : Reached site p) {run : Nat} (hq : complete site p run = .ok q) :
    ∃ q' run', Alongside site added q q' ∧ complete site' p' run = complete site' q' run' := by
  fun_induction Placement.complete site p run generalizing p' with
  | case1 => cases hq
  | case2 p run hnext r run' hfill ih =>
    obtain ⟨r', hfill', halong⟩ := h.fill hsite hp hnext hfill
    obtain ⟨q', run'', halong', hcomplete⟩ := ih halong (hp.fill hnext hfill) hq
    refine ⟨q', run'', halong', ?_⟩
    have hnext' : p'.next < site'.connections.size := by
      obtain ⟨queues, rfl⟩ := h.same
      rw [hsite.connections, Array.size_push]
      exact Nat.lt_succ_of_lt hnext
    rw [← hcomplete, Placement.complete_of_fill hnext' hfill']
  | case3 p run hnext =>
    cases hq
    exact ⟨p', run, h, rfl⟩

end Alongside

/-! ### The last combinator -/

theorem connectEach_append (slot : Nat) (xs ys : List (String × Contact)) :
    connectEach site slot p (xs ++ ys) =
      connectEach site slot p xs >>= fun q => connectEach site slot q ys := by
  induction xs generalizing p with
  | nil => rfl
  | cons c xs ih =>
    rw [List.cons_append, connectEach, connectEach]
    cases connect site slot p c.1 c.2 with
    | error fault => rfl
    | ok mid => exact ih

/-- A segment is drawn to a contact if the wire is open. -/
theorem exists_connect_of_open {color : Color}
    (hcolor : ∀ e, p.openEnds.get? wire = some e → site.colors.get? wire = some color) (slot : Nat)
    (contact : Contact) : ∃ q, connect site slot p wire contact = .ok q ∧
      q.segments.toList = p.segments.toList ++
        ((p.openEnds.get? wire).map fun e => ⟨wire, color, e.contact, contact⟩).toList := by
  cases hopen : p.openEnds.get? wire with
  | none =>
    have hdraw : draw site p wire contact = .ok p.segments := by rw [draw, hopen]
    exact ⟨_, bind_eq_ok.mpr ⟨_, hdraw, rfl⟩, (List.append_nil _).symm⟩
  | some e =>
    have hdraw : draw site p wire contact =
        .ok (p.segments.push ⟨wire, color, e.contact, contact⟩) := by
      rw [draw, hopen]
      refine bind_eq_ok.mpr ⟨color, ?_, rfl⟩
      rw [colorOf, hcolor e hopen]
    exact ⟨_, bind_eq_ok.mpr ⟨_, hdraw, rfl⟩, Array.toList_push⟩

/-- The wires of one side, each of which is listed once, are placed independently of each other. -/
theorem exists_connectEach_side (color : String → Color) {wires : List String}
    (hnodup : wires.Nodup) (hcolor : ∀ wire ∈ wires, ∀ e, p.openEnds.get? wire = some e →
      site.colors.get? wire = some (color wire)) (slot : Nat) (contact : Contact) :
    ∃ q, connectEach site slot p (wires.map (·, contact)) = .ok q ∧
      q.segments.toList = p.segments.toList ++ wires.filterMap (fun wire =>
        (p.openEnds.get? wire).map fun e => ⟨wire, color wire, e.contact, contact⟩) ∧
      ∀ wire, q.openEnds.get? wire =
        if wire ∈ wires then if (p.queue wire).tail = [] then none else some ⟨contact, slot⟩
        else p.openEnds.get? wire := by
  induction wires generalizing p with
  | nil => exact ⟨p, rfl, (List.append_nil _).symm, fun _ => rfl⟩
  | cons w rest ih =>
    obtain ⟨hw, hrest⟩ := List.forall_mem_cons.mp hcolor
    obtain ⟨hnotMem, hnodup⟩ := List.nodup_cons.mp hnodup
    obtain ⟨mid, hmid, hsegments⟩ := exists_connect_of_open hw slot contact
    -- The wires that follow are other ones.
    have hopen : ∀ wire ∈ rest, mid.openEnds.get? wire = p.openEnds.get? wire :=
      fun wire hwire => by
        rw [openEnds_connect hmid, if_neg (ne_of_mem_of_not_mem hwire hnotMem)]
    obtain ⟨q, hq, hsegments', hends⟩ := ih hnodup fun wire hwire e he =>
      hrest wire hwire e ((hopen wire hwire).symm.trans he)
    refine ⟨q, bind_eq_ok.mpr ⟨mid, hmid, hq⟩, ?_, fun wire => ?_⟩
    · rw [hsegments', hsegments, List.append_assoc, List.filterMap_cons,
        List.filterMap_congr fun wire hwire => by rw [hopen wire hwire]]
      cases p.openEnds.get? w <;> rfl
    · rw [hends, openEnds_connect hmid, queue_connect hmid]
      by_cases heq : wire = w
      · subst heq
        simp [hnotMem]
      · simp [heq]

/-- When all combinators are placed, no wire is open. -/
theorem Reached.openEnds_eq_none (h : Reached site p) (hdone : site.connections.size ≤ p.next)
    (wire : String) : p.openEnds.get? wire = none := by
  obtain ⟨trail, hrouted⟩ := h.exists_routed
  have hends := hrouted.openEnds wire
  rwa [if_pos (h.agrees.queue_eq_nil hdone wire), Option.map_eq_none_iff] at hends

/-- When all combinators are placed, all poles are. -/
theorem Reached.schedule_eq_nil (h : Reached site p) (hdone : site.connections.size ≤ p.next) :
    p.schedule = [] := by
  refine List.eq_nil_iff_forall_not_mem.mpr fun s hs => ?_
  obtain ⟨hahead, pole, hpole, hslot⟩ := (h.agrees.mem_schedule s.slot s.pole).mp hs
  exact absurd (h.next_lt_of_pole hpole (hslot ▸ hahead)) (Nat.not_lt_of_le hdone)

theorem Reached.endangered_eq_nil_of_done (h : Reached site p)
    (hdone : site.connections.size ≤ p.next) : endangered site p = [] := by
  refine List.eq_nil_iff_forall_not_mem.mpr fun d hd => ?_
  obtain ⟨wire, e, hopen, -⟩ := mem_endangered_iff.mp hd
  rw [h.openEnds_eq_none hdone] at hopen
  cases hopen

/-- The contacts of the last combinator, side by side. -/
theorem nextContacts_of_last {node : Node} (hsite : site.Appends node.connections site')
    (hnext : p.next = site.connections.size) : nextContacts site' p =
      node.inputs.map (fun wire => (wire, .combinator p.next .input)) ++
        node.outputs.map fun wire => (wire, .combinator p.next .output) := by
  have hlast : site'.connections.getD p.next [] = node.connections := by
    rw [hsite.connections, hnext, Array.getD_eq_getD_getElem?, Array.getElem?_push_size]
    rfl
  rw [nextContacts, hlast, Node.connections, List.map_append, List.map_map, List.map_map]
  rfl

/-- The contacts of a wire on a combinator, if no side has it twice. -/
theorem contactsIn_connections {node : Node} (hinputs : node.inputs.Nodup)
    (houtputs : node.outputs.Nodup) (wire : String) (id : Nat) :
    contactsIn wire id node.connections =
      (if wire ∈ node.inputs then [.combinator id .input] else []) ++
        if wire ∈ node.outputs then [.combinator id .output] else [] := by
  have happend : ∀ xs ys, contactsIn wire id (xs ++ ys) =
      contactsIn wire id xs ++ contactsIn wire id ys := by
    simp [contactsIn]
  have hside : ∀ {wires : List String} (side : Side), wires.Nodup →
      contactsIn wire id (wires.map (⟨·, side⟩)) =
        if wire ∈ wires then [.combinator id side] else [] := fun {wires} side hnodup => by
    rw [← contactsOf_combinator, List.map_map]
    exact contactsOf_map hnodup wire (.combinator id side)
  rw [Node.connections, happend, hside _ hinputs, hside _ houtputs]

/-- The last combinator is joined to itself by the wires that are on both of its sides. -/
theorem exists_connectEach_last {node : Node} {color : String → Color} {input output : Contact}
    (hinputs : node.inputs.Nodup) (houtputs : node.outputs.Nodup)
    (hclosed : ∀ wire, p.openEnds.get? wire = none)
    (hqueue : ∀ wire ∈ node.inputs,
      (p.queue wire).tail = if wire ∈ node.outputs then [output] else [])
    (hcolor : ∀ wire ∈ node.inputs, wire ∈ node.outputs →
      site.colors.get? wire = some (color wire)) (slot : Nat) :
    ∃ q, connectEach site slot p
        (node.inputs.map (·, input) ++ node.outputs.map (·, output)) = .ok q ∧
      q.segments.toList = p.segments.toList ++
        (node.outputs.filter (· ∈ node.inputs)).map fun wire =>
          ⟨wire, color wire, input, output⟩ := by
  obtain ⟨mid, hmid, hsegments, hends⟩ := exists_connectEach_side color hinputs
    (fun wire _ e he => by rw [hclosed] at he; cases he) slot input
  -- Between the sides, the wires that are on both of them are open.
  have hopen : ∀ wire ∈ node.outputs, mid.openEnds.get? wire =
      if wire ∈ node.inputs then some ⟨input, slot⟩ else none := by
    intro wire hout
    rw [hends, hclosed]
    split
    · next hin => rw [hqueue wire hin, if_pos hout, if_neg (List.cons_ne_nil _ _)]
    · rfl
  obtain ⟨q, hq, hsegments', -⟩ := exists_connectEach_side color houtputs
    (fun wire hout e he => by
      rw [hopen wire hout] at he
      exact hcolor wire (Option.ite_none_right_eq_some.mp he).1 hout) slot output
  refine ⟨q, (connectEach_append slot _ _).trans (bind_eq_ok.mpr ⟨mid, hmid, hq⟩), ?_⟩
  have hnone : node.inputs.filterMap (fun wire => (p.openEnds.get? wire).map fun e =>
      (⟨wire, color wire, e.contact, input⟩ : Segment)) = [] :=
    List.filterMap_eq_nil_iff.mpr fun wire _ => by rw [hclosed]; rfl
  have hsome : node.outputs.filterMap (fun wire => (mid.openEnds.get? wire).map fun e =>
      (⟨wire, color wire, e.contact, output⟩ : Segment)) =
        (node.outputs.filter (· ∈ node.inputs)).map fun wire =>
          ⟨wire, color wire, input, output⟩ := by
    rw [← List.filterMap_eq_map, List.filterMap_filter]
    refine List.filterMap_congr fun wire hout => ?_
    simp only [Function.comp_apply, hopen wire hout, decide_eq_true_eq]
    split <;> rfl
  rw [hsegments', hsegments, hnone, hsome, List.append_nil]

/-- The last combinator takes the next slot, and only its own sides are joined. -/
theorem exists_fill_last {node : Node} (h : Alongside site node.connections p p')
    (hsite : site.Appends node.connections site') (hp : Reached site p)
    (hnext : p.next = site.connections.size) (hinputs : node.inputs.Nodup)
    (houtputs : node.outputs.Nodup) {color : String → Color}
    (hcolor : ∀ wire ∈ node.inputs, wire ∈ node.outputs →
      site'.colors.get? wire = some (color wire)) (run : Nat) :
    ∃ q, fill site' p' run = .ok (q, 0) ∧ q.next = p.next + 1 ∧
      q.slots = p.slots.push (.combinator p.next) ∧
      q.positions = p.positions.push (.ofSlot p.slots.size site.width) ∧ q.poles = p.poles ∧
      q.segments.toList = p.segments.toList ++
        (node.outputs.filter (· ∈ node.inputs)).map fun wire =>
          ⟨wire, color wire, .combinator p.next .input, .combinator p.next .output⟩ := by
  have hdone : site.connections.size ≤ p.next := hnext.ge
  have hsafe : endangered site' p'.expire = [] := by
    rw [h.expire.endangered hsite hp.expire]
    exact hp.expire.endangered_eq_nil_of_done hdone
  have hqueue : ∀ wire ∈ node.inputs, (p'.queue wire).tail =
      if wire ∈ node.outputs then [.combinator p.next .output] else [] := by
    intro wire hin
    rw [h.queue, hp.agrees.queue_eq_nil hdone, List.nil_append, ← hnext,
      contactsIn_connections hinputs houtputs, if_pos hin]
    rfl
  obtain ⟨queues, rfl⟩ := h.same
  have hcontacts := nextContacts_of_last (p := expire { p with queues }) hsite hnext
  obtain ⟨q, hq, hsegments⟩ := exists_connectEach_last
    (p := enterCombinator site' (expire { p with queues })) hinputs houtputs
    (hp.openEnds_eq_none hdone) hqueue hcolor p.slots.size
  have hplace : placeCombinator site' (expire { p with queues }) = .ok q := by
    rw [placeCombinator_eq, hcontacts]
    exact hq
  refine ⟨q, bind_eq_ok.mpr ⟨_, settle_eq_ok hsafe _, ?_⟩, ?_⟩
  · have hschedule : (expire { p with queues }).schedule = [] := hp.schedule_eq_nil hdone
    rw [hschedule]
    exact bind_eq_ok.mpr ⟨q, hplace, rfl⟩
  · obtain ⟨queues', openEnds, segments, rfl⟩ := connectEach_frame hq
    refine ⟨rfl, rfl, ?_, rfl, hsegments⟩
    rw [← hsite.width]
    rfl

end Placement

/-! ### Layouts -/

/-- A layout with one more combinator, which has a cell of its own behind the others. All others and
the poles stay where they are, wires that the combinator does not have keep their colors, and only
the sides of the combinator are joined anew, by each wire that is on both of them. -/
structure Layout.Appends (l : Layout) (id : Nat) (inputs outputs : List String) (l' : Layout) :
    Prop where
  cliqueSize : l'.cliqueSize = l.cliqueSize
  colors : ∀ wire, wire ∉ inputs ++ outputs → l'.colors.get? wire = l.colors.get? wire
  slots : l'.slots = l.slots.push (.combinator id)
  positions : l'.positions = l.positions.push (.ofSlot l.slots.size l.cliqueSize)
  poles : l'.poles = l.poles
  segments : ∃ color : String → Color,
    (∀ wire ∈ inputs, wire ∈ outputs → l'.colors.get? wire = some (color wire)) ∧
    l'.segments.toList = l.segments.toList ++ (outputs.filter (· ∈ inputs)).map fun wire =>
      ⟨wire, color wire, .combinator id .input, .combinator id .output⟩

/-- A site with one more combinator is laid out like the one without it, given that the wires that
join the sides of the combinator have colors. -/
theorem Site.Appends.layout {site site' : Site} {node : Node}
    (h : site.Appends node.connections site') (hwidth : 0 < site.width)
    (hinputs : node.inputs.Nodup) (houtputs : node.outputs.Nodup)
    (hcolors : ∀ wire ∈ node.inputs, wire ∈ node.outputs → (site'.colors.get? wire).isSome)
    {l : Layout} (hl : site.layout = .ok l) :
    ∃ l', site'.layout = .ok l' ∧
      l.Appends site.connections.size node.inputs node.outputs l' := by
  obtain ⟨p, hp, hlayout⟩ := Placement.bind_eq_ok.mp hl
  cases hlayout
  obtain ⟨hreached, hdone⟩ := Placement.Reached.initial.complete hp
  have hnext : p.next = site.connections.size :=
    Nat.le_antisymm (hreached.filled hwidth).next_le hdone
  -- Both passes come to the point where only the last combinator is left.
  obtain ⟨p', run, halong, hcomplete⟩ := (Placement.alongside_initial h).complete h .initial hp
  have hcolor : ∀ wire ∈ node.inputs, wire ∈ node.outputs →
      site'.colors.get? wire = some ((site'.colors.get? wire).getD .red) := fun wire hin hout => by
    obtain ⟨color, hsome⟩ := Option.isSome_iff_exists.mp (hcolors wire hin hout)
    rw [hsome, Option.getD_some]
  obtain ⟨q, hq, hlast, hslots, hpositions, hpoles, hsegments⟩ :=
    Placement.exists_fill_last halong h hreached hnext hinputs houtputs hcolor run
  have hsize : site'.connections.size = site.connections.size + 1 := by
    rw [h.connections, Array.size_push]
  have hnext' : p'.next < site'.connections.size := by
    obtain ⟨queues, rfl⟩ := halong.same
    exact (hnext.trans_lt (Nat.lt_succ_self _)).trans_eq hsize.symm
  have hdone' : ¬ q.next < site'.connections.size := by
    rw [hlast, hnext, hsize]
    exact Nat.lt_irrefl _
  have hgoes : Placement.complete site' p' run = Placement.complete site' q 0 :=
    Placement.complete_of_fill hnext' hq
  have hstops : Placement.complete site' q 0 = .ok q := by
    rw [Placement.complete, dif_neg hdone']
  have hfinal := hcomplete.trans (hgoes.trans hstops)
  refine ⟨q.toLayout site', Placement.bind_eq_ok.mpr ⟨q, hfinal, rfl⟩, h.width,
    fun wire hwire => h.colors wire ?_, hnext ▸ hslots, hpositions, hpoles, _, hcolor,
    hnext ▸ hsegments⟩
  rwa [Node.map_wire_connections]

end CombinatorNet
