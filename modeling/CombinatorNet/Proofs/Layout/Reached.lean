import CombinatorNet.Proofs.Layout.Agreement

/-!
# The states of the pass

All states of the pass are built by a few kinds of steps: recent poles expire, a wire hops to a
pole, and a pole or a combinator is placed into the next slot. Queues and schedule agree in all of
them, and any further invariant of the pass is an induction over `Placement.Reached`.

A relayed wire meets its pole before its next combinator, because filling a slot changes no
prediction.

## Main definitions

* `Placement.Reached` — the states of the pass

## Main results

* `Placement.Reached.agrees` — queues and schedule agree in all states of the pass
* `Placement.exists_reached_of_layout` — a layout is such a state with all combinators placed
-/

namespace CombinatorNet.Placement

variable {site : Site} {p q : Placement} {wire : String} {pole : Pole} {e : OpenEnd} {i id : Nat}

/-! ### Filling a slot -/

/-- The contacts that a pole places. -/
def poleContacts (p : Placement) (i : Nat) : List (String × Contact) :=
  ((p.poles[i]?.map (·.wires)).getD []).map fun wire => (wire, .pole i)

/-- The contacts that the next combinator places. -/
def nextContacts (site : Site) (p : Placement) : List (String × Contact) :=
  (site.connections.getD p.next []).map fun c => (c.wire, .combinator p.next c.side)

/-- The state in which the contacts of a pole are placed. -/
def enterPole (p : Placement) (i : Nat) : Placement :=
  { p with
    slots := p.slots.push (.pole i)
    schedule := p.schedule.filter fun s => s.slot ≠ p.slots.size }

/-- The state in which the contacts of the next combinator are placed. -/
def enterCombinator (site : Site) (p : Placement) : Placement :=
  { p with
    slots := p.slots.push (.combinator p.next)
    positions := p.positions.push (.ofSlot p.slots.size site.width)
    next := p.next + 1 }

theorem placePole_eq (site : Site) (p : Placement) (i : Nat) : placePole site p i =
    connectEach site p.slots.size (p.enterPole i) (p.poleContacts i) := rfl

theorem placeCombinator_eq (site : Site) (p : Placement) : placeCombinator site p =
    connectEach site p.slots.size (enterCombinator site p) (nextContacts site p) := rfl

theorem contactsOf_nextContacts (site : Site) (p : Placement) (wire : String) :
    contactsOf wire (nextContacts site p) =
      contactsIn wire p.next (site.connections.getD p.next []) :=
  contactsOf_combinator _ _ _

theorem Agrees.contactsOf_poleContacts (h : Agrees site p) {i : Nat}
    (hpole : p.poles[i]? = some pole) (wire : String) :
    contactsOf wire (p.poleContacts i) = if wire ∈ pole.wires then [.pole i] else [] := by
  rw [poleContacts, hpole]
  exact contactsOf_map (h.nodup_wires i pole hpole) wire _

/-- The pole of the next slot is the one scheduled there. -/
theorem Agrees.exists_pole (h : Agrees site p) {i : Nat} (hi : ⟨p.slots.size, i⟩ ∈ p.schedule) :
    ∃ pole, p.poles[i]? = some pole ∧ pole.slot = p.slots.size :=
  ((h.mem_schedule _ _).mp hi).2

theorem Agrees.eq_of_slot (h : Agrees site p) {slot i j : Nat} (hi : ⟨slot, i⟩ ∈ p.schedule)
    (hj : ⟨slot, j⟩ ∈ p.schedule) : i = j := by
  have heq := List.inj_on_of_nodup_map h.nodup_schedule hi hj rfl
  exact congrArg ScheduledPole.pole heq

/-- The first contact ahead of a wire of the next combinator is on this combinator. -/
theorem exists_contactsFrom_eq_cons (hnext : p.next < site.connections.size)
    (hwire : contactsOf wire (nextContacts site p) ≠ []) :
    ∃ side rest, site.contactsFrom wire p.next = .combinator p.next side :: rest := by
  rw [Site.contactsFrom_next hnext]
  rw [contactsOf_nextContacts] at hwire
  cases hin : contactsIn wire p.next (site.connections.getD p.next []) with
  | nil => exact absurd hin hwire
  | cons contact more =>
    have hmem : contact ∈ contactsIn wire p.next (site.connections.getD p.next []) := by
      rw [hin]
      exact List.mem_cons_self
    obtain ⟨c, -, rfl⟩ := List.mem_map.mp hmem
    exact ⟨c.side, _, rfl⟩

/-- A relayed wire has its pole no later than its next combinator, so the next combinator is met by
wires without a pole ahead only. -/
theorem Agrees.queue_eq_of_next (h : Agrees site p) (hnext : p.next < site.connections.size)
    (hfree : p.slots.size ∉ p.schedule.map (·.slot))
    (hwire : contactsOf wire (nextContacts site p) ≠ []) :
    p.queue wire = site.contactsFrom wire p.next := by
  rcases h.queue wire with hq | ⟨pole, e, id, -, hr⟩
  · exact hq
  · exfalso
    obtain ⟨side, rest, hwaits⟩ := hr.waits
    obtain ⟨side', rest', hfirst⟩ := exists_contactsFrom_eq_cons hnext hwire
    have hid : p.next = id := by
      rw [hfirst, List.cons.injEq, Contact.combinator.injEq] at hwaits
      exact hwaits.1.1
    -- The combinator is predicted to come at once, which leaves no slot for the pole.
    have hbefore := hr.before
    rw [← hid, Nat.sub_self, predict_of_free hfree] at hbefore
    exact absurd hr.ahead (Nat.not_le_of_lt hbefore)

theorem Agrees.waits_of_next (h : Agrees site p) (hnext : p.next < site.connections.size)
    (hfree : p.slots.size ∉ p.schedule.map (·.slot))
    (hwire : contactsOf wire (nextContacts site p) ≠ []) :
    ∃ side rest, p.queue wire = .combinator p.next side :: rest := by
  rw [h.queue_eq_of_next hnext hfree hwire]
  exact exists_contactsFrom_eq_cons hnext hwire

/-- The contacts that a pole places are in front of the queues of their wires. -/
theorem Agrees.poleContacts_inFront (h : Agrees site p) (hi : ⟨p.slots.size, i⟩ ∈ p.schedule)
    (wire : String) : contactsOf wire (p.poleContacts i) <+: p.queue wire := by
  obtain ⟨pole, hpole, hslot⟩ := h.exists_pole hi
  rw [h.contactsOf_poleContacts hpole]
  split
  · next hmem =>
    rw [h.wires i pole wire hpole hslot.ge hmem]
    exact List.prefix_append [_] _
  · exact List.nil_prefix

/-- The contacts that the next combinator places are in front of the queues of their wires. -/
theorem Agrees.nextContacts_inFront (h : Agrees site p) (hnext : p.next < site.connections.size)
    (hfree : p.slots.size ∉ p.schedule.map (·.slot)) (wire : String) :
    contactsOf wire (nextContacts site p) <+: p.queue wire := by
  by_cases hwire : contactsOf wire (nextContacts site p) = []
  · rw [hwire]
    exact List.nil_prefix
  · rw [h.queue_eq_of_next hnext hfree hwire, Site.contactsFrom_next hnext, contactsOf_nextContacts]
    exact List.prefix_append _ _

/-- A wire that a pole does not list is still relayed after this pole is placed. -/
theorem Relayed.placePole (hr : Relayed site p wire pole e id) (h : Agrees site p)
    (hi : ⟨p.slots.size, i⟩ ∈ p.schedule) (hwire : contactsOf wire (p.poleContacts i) = [])
    (hq : placePole site p i = .ok q) : Relayed site q wire pole e id := by
  rw [placePole_eq] at hq
  have hopened := (openEnds_connectEach hq hwire).trans hr.opened
  obtain ⟨queues, openEnds, segments, rfl⟩ := connectEach_frame hq
  have hsize : (p.slots.push (.pole i)).size = p.slots.size + 1 := Array.size_push _
  -- Only the pole of this slot is placed, and the wire is not on it.
  have hne : pole.slot ≠ p.slots.size := by
    intro heq
    have hmem : ⟨p.slots.size, pole.index⟩ ∈ p.schedule :=
      (h.mem_schedule _ _).mpr ⟨Nat.le_refl _, pole, hr.stored, heq⟩
    rw [h.eq_of_slot hi hmem, h.contactsOf_poleContacts hr.stored, if_pos hr.carries] at hwire
    cases hwire
  have hahead := hr.ahead
  refine ⟨hr.stored, hr.carries, ?_, hopened, hr.within, hr.waits, ?_⟩
  · show (p.slots.push (.pole i)).size ≤ pole.slot
    omega
  · show pole.slot < predict (p.schedule.filter _) (p.slots.push (.pole i)).size (id - p.next)
    rw [hsize, ← predict_past_pole (mem_slots_iff.mpr ⟨i, hi⟩) h.nodup_schedule]
    exact hr.before

/-- Filling a slot with its pole takes the wires of the pole on to their next combinators. -/
theorem Agrees.placePole (h : Agrees site p) (hi : ⟨p.slots.size, i⟩ ∈ p.schedule)
    (hq : placePole site p i = .ok q) : Agrees site q := by
  obtain ⟨pole, hpole, hslot⟩ := h.exists_pole hi
  have hrelayed := fun (wire : String) (r : Pole) (e : OpenEnd) (id : Nat) hwire
    (hr : Relayed site p wire r e id) => hr.placePole h hi hwire hq
  rw [placePole_eq] at hq
  have hqueue := queue_connectEach hq
  simp only [h.contactsOf_poleContacts hpole] at hqueue hrelayed
  obtain ⟨queues, openEnds, segments, rfl⟩ := connectEach_frame hq
  have hsize : (p.slots.push (.pole i)).size = p.slots.size + 1 := Array.size_push _
  have hrest : ∀ wire, wire ∉ pole.wires → Placement.queue _ wire = p.queue wire := fun wire hw =>
    (hqueue wire).trans (by rw [if_neg hw]; rfl)
  constructor
  · exact h.index
  · exact h.nodup_wires
  · -- The slot is left behind, and with it the only pole scheduled there.
    intro slot j
    show ⟨slot, j⟩ ∈ p.schedule.filter _ ↔ (p.slots.push (.pole i)).size ≤ slot ∧ _
    rw [List.mem_filter, h.mem_schedule, hsize, decide_eq_true_eq, and_right_comm]
    refine and_congr_left fun _ => ?_
    dsimp only
    omega
  · exact (List.filter_sublist.map _).nodup h.nodup_schedule
  · intro wire
    by_cases hw : wire ∈ pole.wires
    · -- The pole was in front of the queue, so the combinators are left in it.
      refine .inl ?_
      rw [hqueue, if_pos hw]
      show (p.queue wire).drop 1 = site.contactsFrom wire p.next
      rw [h.wires i pole wire hpole hslot.ge hw]
      rfl
    · rw [hrest wire hw]
      refine (h.queue wire).imp_right ?_
      rintro ⟨r, e, id, hqueue, hr⟩
      exact ⟨r, e, id, hqueue, hrelayed wire r e id (if_neg hw) hr⟩
  · intro j r wire hr hahead hmem
    change (p.slots.push (.pole i)).size ≤ r.slot at hahead
    have hold := h.wires j r wire hr (by omega) hmem
    -- A wire has one pole ahead at most, so it is not on the pole of this slot.
    have hw : wire ∉ pole.wires := by
      intro hw
      rw [h.wires i pole wire hpole hslot.ge hw, List.cons.injEq, Contact.pole.injEq] at hold
      obtain ⟨rfl, -⟩ := hold
      obtain rfl : pole = r := Option.some_inj.mp (hpole.symm.trans hr)
      omega
    rw [hrest wire hw]
    exact hold

/-- A wire without a contact on the next combinator is still relayed after it is placed. -/
theorem Relayed.placeCombinator (hr : Relayed site p wire pole e id) (h : Agrees site p)
    (hnext : p.next < site.connections.size) (hfree : p.slots.size ∉ p.schedule.map (·.slot))
    (hwire : contactsOf wire (nextContacts site p) = [])
    (hq : placeCombinator site p = .ok q) : Relayed site q wire pole e id := by
  rw [placeCombinator_eq] at hq
  have hopened := (openEnds_connectEach hq hwire).trans hr.opened
  obtain ⟨queues, openEnds, segments, rfl⟩ := connectEach_frame hq
  have hsize : (p.slots.push (.combinator p.next)).size = p.slots.size + 1 := Array.size_push _
  have hahead := hr.ahead
  have hbefore := hr.before
  have hne : pole.slot ≠ p.slots.size := fun heq => hfree <|
    mem_slots_iff.mpr ⟨pole.index, (h.mem_schedule _ _).mpr ⟨Nat.le_refl _, pole, hr.stored, heq⟩⟩
  obtain ⟨side, rest, hwaits⟩ := hr.waits
  rw [contactsOf_nextContacts] at hwire
  rw [Site.contactsFrom_next hnext, hwire, List.nil_append] at hwaits
  -- The combinator the wire waits for is not this one, so its offset shrinks by one.
  have hid := Site.le_of_contactsFrom_eq_cons hwaits
  refine ⟨hr.stored, hr.carries, ?_, hopened, hr.within, ⟨side, rest, hwaits⟩, ?_⟩
  · show (p.slots.push (.combinator p.next)).size ≤ pole.slot
    omega
  · show pole.slot < predict p.schedule (p.slots.push (.combinator p.next)).size (id - (p.next + 1))
    rw [hsize, ← predict_past_free hfree]
    rwa [show id - (p.next + 1) + 1 = id - p.next by omega]

/-- Filling a slot with the next combinator takes its wires on to what follows. -/
theorem Agrees.placeCombinator (h : Agrees site p) (hnext : p.next < site.connections.size)
    (hfree : p.slots.size ∉ p.schedule.map (·.slot)) (hq : placeCombinator site p = .ok q) :
    Agrees site q := by
  have hrelayed := fun (wire : String) (r : Pole) (e : OpenEnd) (id : Nat) hwire
    (hr : Relayed site p wire r e id) => hr.placeCombinator h hnext hfree hwire hq
  have hmeet := fun (wire : String) (hwire : contactsOf wire (nextContacts site p) ≠ []) =>
    h.queue_eq_of_next hnext hfree hwire
  have hcontacts : ∀ wire, site.contactsFrom wire p.next =
      contactsOf wire (nextContacts site p) ++ site.contactsFrom wire (p.next + 1) := fun _ => by
    rw [Site.contactsFrom_next hnext, contactsOf_nextContacts]
  rw [placeCombinator_eq] at hq
  have hqueue := queue_connectEach hq
  obtain ⟨queues, openEnds, segments, rfl⟩ := connectEach_frame hq
  have hsize : (p.slots.push (.combinator p.next)).size = p.slots.size + 1 := Array.size_push _
  constructor
  · exact h.index
  · exact h.nodup_wires
  · -- No pole was scheduled for the slot, so none is left behind.
    intro slot j
    show ⟨slot, j⟩ ∈ p.schedule ↔ (p.slots.push (.combinator p.next)).size ≤ slot ∧ _
    rw [h.mem_schedule, hsize]
    refine and_congr_left ?_
    rintro ⟨r, hr, rfl⟩
    have hne : r.slot ≠ p.slots.size := fun heq => hfree <|
      mem_slots_iff.mpr ⟨j, (h.mem_schedule _ _).mpr ⟨Nat.le_refl _, r, hr, heq⟩⟩
    omega
  · exact h.nodup_schedule
  · intro wire
    rw [hqueue]
    by_cases hwire : contactsOf wire (nextContacts site p) = []
    · -- Nothing is taken off the queue, and nothing was ahead on this combinator.
      rw [hwire]
      show p.queue wire = site.contactsFrom wire (p.next + 1) ∨ _
      have hsame : site.contactsFrom wire p.next = site.contactsFrom wire (p.next + 1) := by
        rw [hcontacts, hwire]
        rfl
      refine (h.queue wire).imp (fun heq => heq.trans hsame) ?_
      rintro ⟨r, e, id, hold, hr⟩
      exact ⟨r, e, id, hsame ▸ hold, hrelayed wire r e id hwire hr⟩
    · -- The contacts on this combinator are taken off, and those on later ones are left.
      refine .inl ?_
      show (p.queue wire).drop _ = site.contactsFrom wire (p.next + 1)
      rw [hmeet wire hwire, hcontacts, List.drop_left]
  · intro j r wire hr hahead hmem
    change (p.slots.push (.combinator p.next)).size ≤ r.slot at hahead
    have hold := h.wires j r wire hr (by omega) hmem
    have hwire : contactsOf wire (nextContacts site p) = [] := by
      by_contra hwire
      -- A wire of this combinator has no pole ahead.
      have hmem : Contact.pole j ∈ site.contactsFrom wire p.next := by
        rw [← hmeet wire hwire, hold]
        exact List.mem_cons_self
      exact Site.pole_notMem_contactsFrom hmem
    rw [hqueue, hwire]
    show p.queue wire = _ :: site.contactsFrom wire (p.next + 1)
    rw [hold, hcontacts, hwire]
    rfl

/-! ### The pass -/

/-- The states of the pass, at the start of each slot and between any two steps for it. -/
inductive Reached (site : Site) : Placement → Prop
  | initial : Reached site (initial site)
  | expire {p : Placement} : Reached site p → Reached site p.expire
  /-- A wire hops to a pole that exists. -/
  | merge {p : Placement} {wire : String} {pole : Pole} {e : OpenEnd} {id : Nat} :
      Reached site p → Hop site p wire pole e id → Reached site (p.route wire pole.index)
  /-- A wire hops to a new pole in a free slot. -/
  | splice {p : Placement} {slot : Nat} {wire : String} {pole : Pole} {e : OpenEnd} {id : Nat} :
      Reached site p → p.slots.size ≤ slot → slot ∉ p.schedule.map (·.slot) →
      pole.index = p.poles.size → Hop site (addPole site p slot) wire pole e id →
      Reached site ((addPole site p slot).route wire pole.index)
  | placePole {p q : Placement} {i : Nat} :
      Reached site p → endangered site p = [] → ⟨p.slots.size, i⟩ ∈ p.schedule →
      placePole site p i = .ok q → Reached site q
  | placeCombinator {p q : Placement} :
      Reached site p → endangered site p = [] → p.slots.size ∉ p.schedule.map (·.slot) →
      p.next < site.connections.size → placeCombinator site p = .ok q → Reached site q

/-- Queues and schedule agree in all states of the pass. -/
theorem Reached.agrees (h : Reached site p) : Agrees site p := by
  induction h with
  | initial => exact agrees_initial site
  | expire _ ih => exact ih.expire
  | merge _ hop ih => exact ih.route hop
  | splice _ hslot hfree _ hop ih => exact (ih.addPole hslot hfree).route hop
  | placePole _ _ hi hq ih => exact ih.placePole hi hq
  | placeCombinator _ _ hfree hnext hq ih => exact ih.placeCombinator hnext hfree hq

/-- Relaying an endangered wire is a step of the pass and leaves the others in danger. -/
theorem Reached.relay {round : Nat} {d : Endangered} (h : Reached site p)
    (hd : Threatened site p d e id) (hq : relay site round p d = .ok q) :
    Reached site q ∧ ∀ d' e' id', d'.wire ≠ d.wire → Threatened site p d' e' id' →
      Threatened site q d' e' id' := by
  -- The wire hops to an old pole or to a new one, and both leave the other wires where they are.
  rcases exists_hop_of_relay h.agrees hd hq with
    ⟨pole, hop, rfl⟩ | ⟨slot, pole, hslot, hfree, hindex, hop, rfl⟩
  · exact ⟨h.merge hop, fun d' e' id' hne hd' => hd'.route hne _⟩
  · exact ⟨h.splice hslot hfree hindex hop, fun d' e' id' hne hd' => (hd'.addPole slot).route hne _⟩

/-- As each wire is listed once, those that follow one that is relayed are still in danger. -/
theorem Reached.relay_first {round : Nat} {d : Endangered} {rest : List Endangered}
    (h : Reached site p) (hds : ∀ d' ∈ d :: rest, ∃ e id, Threatened site p d' e id)
    (hnodup : ((d :: rest).map (·.wire)).Nodup) (hq : Placement.relay site round p d = .ok q) :
    Reached site q ∧ (∀ d' ∈ rest, ∃ e id, Threatened site q d' e id) ∧
      (rest.map (·.wire)).Nodup := by
  rw [List.map_cons, List.nodup_cons] at hnodup
  obtain ⟨e, id, hd⟩ := hds d List.mem_cons_self
  obtain ⟨hreached, hkeep⟩ := h.relay hd hq
  refine ⟨hreached, fun d' hd' => ?_, hnodup.2⟩
  obtain ⟨e', id', hthreat⟩ := hds d' (List.mem_cons_of_mem _ hd')
  have hne : d'.wire ≠ d.wire := fun heq => hnodup.1 (heq ▸ List.mem_map_of_mem hd')
  exact ⟨e', id', hkeep d' e' id' hne hthreat⟩

theorem Reached.relayEach {round : Nat} {ds : List Endangered} (h : Reached site p)
    (hds : ∀ d ∈ ds, ∃ e id, Threatened site p d e id) (hnodup : (ds.map (·.wire)).Nodup)
    (hq : relayEach site round p ds = .ok q) : Reached site q := by
  induction ds generalizing p with
  | nil => cases hq; exact h
  | cons d rest ih =>
    obtain ⟨mid, hmid, hq⟩ := bind_eq_ok.mp hq
    obtain ⟨hreached, hds', hnodup'⟩ := h.relay_first hds hnodup hmid
    exact ih hreached hds' hnodup' hq

/-- When no wire is left to be relayed, the pass is still in one of its states. -/
theorem Reached.settle {left : Nat} (h : Reached site p) (hq : settle site left p = .ok q) :
    Reached site q ∧ endangered site q = [] := by
  -- The last round only looks whether a wire is left; the rounds before it relay those they find.
  induction left generalizing p with
  | zero =>
    rw [Placement.settle] at hq
    split at hq
    · next hnone => cases hq; exact ⟨h, List.isEmpty_iff.mp hnone⟩
    · cases hq
  | succ left ih =>
    rw [Placement.settle] at hq
    split at hq
    · next hnone => cases hq; exact ⟨h, hnone⟩
    · obtain ⟨mid, hmid, hq⟩ := bind_eq_ok.mp hq
      exact ih (h.relayEach (fun d hd => mem_endangered.mp hd) (nodup_endangered site p) hmid) hq

/-- What is looked up for the next slot is its pole. -/
theorem mem_schedule_of_find? {s : ScheduledPole}
    (h : p.schedule.find? (fun s => s.slot = p.slots.size) = some s) :
    ⟨p.slots.size, s.pole⟩ ∈ p.schedule := by
  have hslot : s.slot = p.slots.size := by simpa using List.find?_some h
  exact hslot ▸ List.mem_of_find?_eq_some h

theorem free_of_find?_eq_none
    (h : p.schedule.find? (fun s => s.slot = p.slots.size) = none) :
    p.slots.size ∉ p.schedule.map (·.slot) := by
  intro hmem
  obtain ⟨i, hi⟩ := mem_slots_iff.mp hmem
  simpa using List.find?_eq_none.mp h _ hi

/-- Filling a slot leads from one state of the pass to another. -/
theorem Reached.fill {run run' : Nat} (h : Reached site p) (hnext : p.next < site.connections.size)
    (hq : fill site p run = .ok (q, run')) : Reached site q := by
  obtain ⟨mid, hmid, hq⟩ := bind_eq_ok.mp hq
  obtain ⟨hreached, hsafe⟩ := h.expire.settle hmid
  have hnext' : mid.next < site.connections.size := by
    rw [next_settle hmid]
    exact hnext
  -- Either a pole is scheduled for the slot, or the next combinator takes it.
  split at hq
  · next s hfind =>
    obtain ⟨placed, hplaced, hq⟩ := bind_eq_ok.mp hq
    split at hq
    · cases hq
    · cases hq
      exact hreached.placePole hsafe (mem_schedule_of_find? hfind) hplaced
  · next hfind =>
    obtain ⟨placed, hplaced, hq⟩ := bind_eq_ok.mp hq
    cases hq
    exact hreached.placeCombinator hsafe (free_of_find?_eq_none hfind) hnext' hplaced

theorem Reached.complete {run : Nat} (h : Reached site p) (hq : complete site p run = .ok q) :
    Reached site q ∧ site.connections.size ≤ q.next := by
  fun_induction Placement.complete site p run with
  | case1 => cases hq
  | case2 p run hnext r run' hfill ih => exact ih (h.fill hnext hfill) hq
  | case3 p run hnext => cases hq; exact ⟨h, Nat.le_of_not_lt hnext⟩

/-- A layout describes a state of the pass in which all combinators are placed. -/
theorem exists_reached_of_layout {l : Layout} (h : site.layout = .ok l) :
    ∃ p, Reached site p ∧ site.connections.size ≤ p.next ∧ l = p.toLayout site := by
  obtain ⟨p, hp, h⟩ := bind_eq_ok.mp h
  cases h
  obtain ⟨hreached, hdone⟩ := Reached.initial.complete hp
  exact ⟨p, hreached, hdone, rfl⟩

end CombinatorNet.Placement
