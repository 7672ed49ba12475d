import CombinatorNet.Proofs.Layout.Contacts
import CombinatorNet.Proofs.Layout.Prediction
import Mathlib.Data.List.Nodup

/-!
# Queues and schedule agree

What is in front of the queue of a wire is either its next combinator, or a pole that is scheduled
before the slot that this combinator is predicted to take. Further poles only put combinators off,
so relaying a wire keeps that.

## Main definitions

* `Placement.Hop` — a pole may become the next contact of a wire
* `Placement.Relayed` — a pole is the next contact of a wire
* `Placement.Agrees` — queues, poles and schedule agree
* `Placement.Threatened` — a wire must be relayed

## Main results

* `Placement.Agrees.route`, `Placement.Agrees.addPole` — relaying keeps the agreement
* `Placement.exists_hop_of_relay` — relaying an endangered wire is a hop
-/

namespace CombinatorNet.Placement

variable {site : Site} {p q : Placement} {wire : String} {pole : Pole} {e : OpenEnd} {id : Nat}

/-! ### Relaying a wire -/

/-- A pole has room for a wire and is within its reach, and comes before its next combinator. -/
structure Hop (site : Site) (p : Placement) (wire : String) (pole : Pole) (e : OpenEnd) (id : Nat) :
    Prop where
  stored : p.poles[pole.index]? = some pole
  color : ∃ color, site.colors.get? wire = some color ∧ hasRoom site wire color pole = true
  ahead : p.slots.size ≤ pole.slot
  opened : p.openEnds.get? wire = some e
  within : pole.slot ≤ reach site.width e.slot
  waits : ∃ side rest, p.queue wire = .combinator id side :: rest
  before : pole.slot < predict p.schedule p.slots.size (id - p.next)

theorem Hop.notMem (h : Hop site p wire pole e id) : wire ∉ pole.wires := by
  obtain ⟨color, -, hroom⟩ := h.color
  simp only [hasRoom, Bool.and_eq_true, Bool.not_eq_true'] at hroom
  simpa using hroom.1.2

/-- A pole with room for a wire does not list it yet. -/
theorem Hop.nodup_concat (h : Hop site p wire pole e id) (hnodup : pole.wires.Nodup) :
    (pole.wires ++ [wire]).Nodup :=
  List.nodup_append_comm.mp (List.nodup_cons.mpr ⟨h.notMem, hnodup⟩)

/-- A pole lists a wire, is within its reach, and comes before its next combinator. -/
structure Relayed (site : Site) (p : Placement) (wire : String) (pole : Pole) (e : OpenEnd)
    (id : Nat) : Prop where
  stored : p.poles[pole.index]? = some pole
  carries : wire ∈ pole.wires
  ahead : p.slots.size ≤ pole.slot
  opened : p.openEnds.get? wire = some e
  within : pole.slot ≤ reach site.width e.slot
  waits : ∃ side rest, site.contactsFrom wire p.next = .combinator id side :: rest
  before : pole.slot < predict p.schedule p.slots.size (id - p.next)

/-- The queues, the poles and the schedule of a state tell the same story. -/
structure Agrees (site : Site) (p : Placement) : Prop where
  index : ∀ (i : Nat) (pole : Pole), p.poles[i]? = some pole → pole.index = i
  nodup_wires : ∀ (i : Nat) (pole : Pole), p.poles[i]? = some pole → pole.wires.Nodup
  mem_schedule : ∀ slot i, ⟨slot, i⟩ ∈ p.schedule ↔
    p.slots.size ≤ slot ∧ ∃ pole, p.poles[i]? = some pole ∧ pole.slot = slot
  nodup_schedule : (p.schedule.map (·.slot)).Nodup
  queue : ∀ wire, p.queue wire = site.contactsFrom wire p.next ∨ ∃ pole e id,
    p.queue wire = .pole pole.index :: site.contactsFrom wire p.next ∧ Relayed site p wire pole e id
  wires : ∀ (i : Nat) (pole : Pole) (wire : String), p.poles[i]? = some pole →
    p.slots.size ≤ pole.slot → wire ∈ pole.wires →
    p.queue wire = .pole i :: site.contactsFrom wire p.next

/-- Nothing is relayed at first. -/
theorem agrees_initial (site : Site) : Agrees site (initial site) where
  index i pole h := by simp [initial] at h
  nodup_wires i pole h := by simp [initial] at h
  mem_schedule slot i := by simp [initial]
  nodup_schedule := by simp [initial]
  queue wire := .inl (queue_initial site wire)
  wires i pole wire h := by simp [initial] at h

theorem Agrees.expire (h : Agrees site p) : Agrees site p.expire :=
  ⟨h.index, h.nodup_wires, h.mem_schedule, h.nodup_schedule,
    fun wire => (h.queue wire).imp_right fun ⟨pole, e, id, hq, hr⟩ =>
      ⟨pole, e, id, hq, hr.stored, hr.carries, hr.ahead, hr.opened, hr.within, hr.waits, hr.before⟩,
    h.wires⟩

/-- A wire that waits for a combinator has no pole ahead. -/
theorem Agrees.contactsFrom_eq (h : Agrees site p) {side : Side} {rest : List Contact}
    (hqueue : p.queue wire = .combinator id side :: rest) :
    site.contactsFrom wire p.next = .combinator id side :: rest := by
  rcases h.queue wire with heq | ⟨pole, e, id', heq, -⟩
  · rw [← heq, hqueue]
  · rw [hqueue] at heq
    cases heq

/-- The wires of a pole ahead are relayed by it. -/
theorem Agrees.relayed (h : Agrees site p) {i : Nat} (hpole : p.poles[i]? = some pole)
    (hahead : p.slots.size ≤ pole.slot) (hmem : wire ∈ pole.wires) :
    ∃ e id, Relayed site p wire pole e id := by
  -- The pole is in front of the queue, and only a relayed wire has a pole there.
  have hqueue := h.wires i pole wire hpole hahead hmem
  rcases h.queue wire with heq | ⟨r, e, id, heq, hr⟩
  · have hmem : Contact.pole i ∈ site.contactsFrom wire p.next := by
      rw [← heq, hqueue]
      exact List.mem_cons_self
    exact absurd hmem Site.pole_notMem_contactsFrom
  · rw [hqueue, List.cons.injEq, Contact.pole.injEq] at heq
    have hstored := hr.stored
    rw [← heq.1, hpole] at hstored
    obtain rfl := Option.some_inj.mp hstored
    exact ⟨e, id, hr⟩

theorem queue_route (p : Placement) (wire : String) (i : Nat) (wire' : String) :
    (p.route wire i).queue wire' =
      if wire' = wire then .pole i :: p.queue wire else p.queue wire' := by
  simp only [route, queue, NameMap.get?_insert]
  split <;> rfl

theorem poles_route (p : Placement) (wire : String) (i j : Nat) :
    (p.route wire i).poles[j]? = (p.poles[j]?).map fun pole =>
      if i = j then { pole with wires := pole.wires ++ [wire] } else pole := by
  rw [route, Array.getElem?_modify]
  split
  · rfl
  · simp

/-- A hop leaves the poles in their slots. -/
theorem exists_slot_route {slot i j : Nat} :
    (∃ pole, (p.route wire i).poles[j]? = some pole ∧ pole.slot = slot) ↔
      ∃ pole, p.poles[j]? = some pole ∧ pole.slot = slot := by
  rw [poles_route]
  constructor
  · rintro ⟨r, hr, rfl⟩
    obtain ⟨r₀, hr₀, rfl⟩ := Option.map_eq_some_iff.mp hr
    exact ⟨r₀, hr₀, by split <;> rfl⟩
  · rintro ⟨r, hr, rfl⟩
    exact ⟨_, by rw [hr]; rfl, by split <;> rfl⟩

theorem poles_addPole (site : Site) (p : Placement) (slot j : Nat) :
    (addPole site p slot).poles[j]? = if j = p.poles.size then
      some ⟨p.poles.size, slot, .ofSlot slot site.width, []⟩ else p.poles[j]? := by
  rw [addPole, Array.getElem?_push]

/-- The pole of a hop lists one wire more. -/
theorem Hop.stored_route (hop : Hop site p wire pole e id) :
    (p.route wire pole.index).poles[pole.index]? =
      some { pole with wires := pole.wires ++ [wire] } := by
  simp [poles_route, hop.stored]

/-- A hop changes its own pole only. -/
theorem Hop.exists_pole (hop : Hop site p wire pole e id) {i : Nat} {r : Pole}
    (hr : (p.route wire pole.index).poles[i]? = some r) :
    ∃ r₀, p.poles[i]? = some r₀ ∧ r₀.index = r.index ∧ r₀.slot = r.slot ∧
      (i = pole.index ∧ r₀ = pole ∧ r.wires = pole.wires ++ [wire] ∨
        i ≠ pole.index ∧ r₀.wires = r.wires) := by
  -- A pole at an index is the old one there, with the wire added if it is the pole of the hop.
  rw [poles_route] at hr
  obtain ⟨r₀, hr₀, rfl⟩ := Option.map_eq_some_iff.mp hr
  refine ⟨r₀, hr₀, ?_⟩
  by_cases hi : pole.index = i
  · subst hi
    obtain rfl : pole = r₀ := by simpa [hop.stored] using hr₀
    simp
  · have hi' : i ≠ pole.index := fun heq => hi heq.symm
    simp [hi, hi']

/-- The wire of a hop is relayed by the pole it hops to. -/
theorem Agrees.relayed_route (h : Agrees site p) (hop : Hop site p wire pole e id) :
    Relayed site (p.route wire pole.index) wire { pole with wires := pole.wires ++ [wire] } e
      id := by
  obtain ⟨side, rest, hwaits⟩ := hop.waits
  exact ⟨hop.stored_route, by simp, hop.ahead, hop.opened, hop.within,
    ⟨side, rest, h.contactsFrom_eq hwaits⟩, hop.before⟩

/-- Other wires are still relayed after a hop, if by the same pole then with one wire more. -/
theorem Relayed.route {wire' : String} {r : Pole} {e' : OpenEnd} {id' : Nat}
    (hr : Relayed site p wire' r e' id') (hop : Hop site p wire pole e id) :
    ∃ r', r'.index = r.index ∧ Relayed site (p.route wire pole.index) wire' r' e' id' := by
  by_cases hi : pole.index = r.index
  · obtain rfl : pole = r := by
      have := hr.stored
      rw [← hi, hop.stored] at this
      exact Option.some_inj.mp this
    exact ⟨{ pole with wires := pole.wires ++ [wire] }, rfl, hop.stored_route,
      List.mem_append_left _ hr.carries, hr.ahead, hr.opened, hr.within, hr.waits, hr.before⟩
  · refine ⟨r, rfl, ?_, hr.carries, hr.ahead, hr.opened, hr.within, hr.waits, hr.before⟩
    rw [poles_route, hr.stored, Option.map_some, if_neg hi]

/-- After a hop the wires of the poles ahead still have them in front of their queues. -/
private theorem Agrees.wires_route (h : Agrees site p) (hop : Hop site p wire pole e id) {i : Nat}
    {r : Pole} {wire' : String} (hr : (p.route wire pole.index).poles[i]? = some r)
    (hahead : p.slots.size ≤ r.slot) (hmem : wire' ∈ r.wires) :
    (p.route wire pole.index).queue wire' = .pole i :: site.contactsFrom wire' p.next := by
  obtain ⟨side, rest, hwaits⟩ := hop.waits
  obtain ⟨r₀, hr₀, -, hslot, hcase⟩ := hop.exists_pole hr
  have hahead₀ : p.slots.size ≤ r₀.slot := hslot ▸ hahead
  rw [queue_route]
  by_cases hw : wire' = wire
  · subst hw
    rcases hcase with ⟨rfl, -, -⟩ | ⟨-, hwires⟩
    · rw [if_pos rfl, hwaits, h.contactsFrom_eq hwaits]
    · -- The wire would have had this pole ahead before, but it waited for a combinator.
      have := h.wires i r₀ wire' hr₀ hahead₀ (hwires ▸ hmem)
      rw [hwaits] at this
      cases this
  · rw [if_neg hw]
    refine h.wires i r₀ wire' hr₀ hahead₀ ?_
    rcases hcase with ⟨-, rfl, hwires⟩ | ⟨-, hwires⟩
    · rw [hwires, List.mem_append, List.mem_singleton] at hmem
      exact hmem.resolve_right hw
    · rw [hwires]
      exact hmem

/-- A hop makes the pole the next contact of the wire, and leaves other wires alone. -/
theorem Agrees.route (h : Agrees site p) (hop : Hop site p wire pole e id) :
    Agrees site (p.route wire pole.index) := by
  obtain ⟨side, rest, hwaits⟩ := hop.waits
  constructor
  · intro i r hr
    obtain ⟨r₀, hr₀, hindex, -⟩ := hop.exists_pole hr
    rw [← hindex, h.index i r₀ hr₀]
  · intro i r hr
    obtain ⟨r₀, hr₀, -, -, ⟨-, rfl, hwires⟩ | ⟨-, hwires⟩⟩ := hop.exists_pole hr
    · rw [hwires]
      exact hop.nodup_concat (h.nodup_wires i _ hr₀)
    · rw [← hwires]
      exact h.nodup_wires i r₀ hr₀
  · intro slot i
    exact (h.mem_schedule slot i).trans (and_congr_right' exists_slot_route.symm)
  · exact h.nodup_schedule
  · intro wire'
    rw [queue_route]
    by_cases hw : wire' = wire
    · subst hw
      refine .inr ⟨_, e, id, ?_, h.relayed_route hop⟩
      rw [if_pos rfl, hwaits, ← h.contactsFrom_eq hwaits]
      rfl
    · rw [if_neg hw]
      refine (h.queue wire').imp_right ?_
      rintro ⟨r, e', id', hqueue, hr⟩
      obtain ⟨r', hindex, hr'⟩ := hr.route hop
      exact ⟨r', e', id', hindex ▸ hqueue, hr'⟩
  · exact fun i r wire' hr hahead hmem => h.wires_route hop hr hahead hmem

/-- Scheduling a new pole leaves the relayed wires to their poles. -/
theorem Relayed.addPole (hr : Relayed site p wire pole e id) (slot : Nat) :
    Relayed site (addPole site p slot) wire pole e id := by
  have hne : pole.index ≠ p.poles.size := by
    intro heq
    have := hr.stored
    rw [heq, Array.getElem?_eq_none (Nat.le_refl _)] at this
    cases this
  refine ⟨?_, hr.carries, hr.ahead, hr.opened, hr.within, hr.waits, ?_⟩
  · rw [poles_addPole, if_neg hne, hr.stored]
  · exact Nat.lt_of_lt_of_le hr.before (predict_mono (List.sublist_cons_self _ _))

/-- A new pole in a free slot puts combinators off, but brings none forward. -/
theorem Agrees.addPole (h : Agrees site p) {slot : Nat} (hslot : p.slots.size ≤ slot)
    (hfree : slot ∉ p.schedule.map (·.slot)) : Agrees site (addPole site p slot) := by
  have hnone : p.poles[p.poles.size]? = none := Array.getElem?_eq_none (Nat.le_refl _)
  constructor
  · intro i r hr
    rw [poles_addPole] at hr
    split at hr
    · next hi => cases hr; exact hi.symm
    · exact h.index i r hr
  · intro i r hr
    rw [poles_addPole] at hr
    split at hr
    · cases hr; exact List.nodup_nil
    · exact h.nodup_wires i r hr
  · intro slot' i
    show _ ∈ _ :: p.schedule ↔ _
    rw [List.mem_cons, h.mem_schedule, poles_addPole]
    by_cases hi : i = p.poles.size
    · -- The index was not in use, so only the new entry can be meant.
      subst hi
      rw [if_pos rfl, hnone]
      constructor
      · rintro (heq | ⟨-, r, hr, -⟩)
        · cases heq
          exact ⟨hslot, _, rfl, rfl⟩
        · cases hr
      · rintro ⟨-, r, hr, rfl⟩
        cases hr
        exact .inl rfl
    · rw [if_neg hi]
      refine or_iff_right fun heq => hi ?_
      cases heq
      rfl
  · show (slot :: p.schedule.map (·.slot)).Nodup
    exact List.nodup_cons.mpr ⟨hfree, h.nodup_schedule⟩
  · intro wire
    refine (h.queue wire).imp_right ?_
    rintro ⟨r, e, id, hqueue, hr⟩
    exact ⟨r, e, id, hqueue, hr.addPole slot⟩
  · intro i r wire hr hahead hmem
    rw [poles_addPole] at hr
    split at hr
    · cases hr
      cases hmem
    · exact h.wires i r wire hr hahead hmem

/-! ### Endangered wires -/

/-- An open wire waits for a combinator that is predicted out of its reach. -/
structure Threatened (site : Site) (p : Placement) (d : Endangered) (e : OpenEnd) (id : Nat) :
    Prop where
  opened : p.openEnds.get? d.wire = some e
  reach_eq : d.reach = reach site.width e.slot
  waits : ∃ side rest, p.queue d.wire = .combinator id side :: rest
  ahead : p.next ≤ id
  far : d.reach < predict p.schedule p.slots.size (id - p.next)

theorem danger?_eq_some_iff {d : Endangered} :
    danger? site p wire e = some d ↔ d.wire = wire ∧ d.reach = reach site.width e.slot ∧
      ∃ id side rest, p.queue wire = .combinator id side :: rest ∧ p.next ≤ id ∧
        d.reach < predict p.schedule p.slots.size (id - p.next) := by
  obtain ⟨w, r⟩ := d
  -- A wire is in danger only while a combinator is in front of its queue.
  rw [danger?]
  split
  · next id side rest hqueue =>
    simp only [Option.ite_none_right_eq_some, Option.some.injEq, Endangered.mk.injEq, hqueue,
      List.cons.injEq, Contact.combinator.injEq]
    constructor
    · rintro ⟨⟨hahead, hfar⟩, rfl, rfl⟩
      exact ⟨rfl, rfl, id, side, rest, ⟨⟨rfl, rfl⟩, rfl⟩, hahead, hfar⟩
    · rintro ⟨rfl, rfl, id', side', rest', ⟨⟨rfl, rfl⟩, rfl⟩, hahead, hfar⟩
      exact ⟨⟨hahead, hfar⟩, rfl, rfl⟩
  · next hqueue =>
    constructor
    · intro h
      cases h
    · rintro ⟨-, -, id, side, rest, h, -⟩
      exact absurd h (hqueue id side rest)

theorem mem_endangered {d : Endangered} :
    d ∈ endangered site p ↔ ∃ e id, Threatened site p d e id := by
  rw [mem_endangered_iff]
  constructor
  · rintro ⟨wire, e, hopen, hd⟩
    obtain ⟨rfl, hreach, id, side, rest, hqueue, hahead, hfar⟩ := danger?_eq_some_iff.mp hd
    exact ⟨e, id, hopen, hreach, ⟨side, rest, hqueue⟩, hahead, hfar⟩
  · rintro ⟨e, id, hopen, hreach, ⟨side, rest, hqueue⟩, hahead, hfar⟩
    exact ⟨d.wire, e, hopen,
      danger?_eq_some_iff.mpr ⟨rfl, hreach, id, side, rest, hqueue, hahead, hfar⟩⟩

/-- Each wire is listed once. -/
theorem nodup_endangered (site : Site) (p : Placement) :
    ((endangered site p).map (·.wire)).Nodup := by
  rw [((perm_endangered site p).map _).nodup_iff]
  -- The open ends are listed by ascending names, and the dangers keep the names.
  refine List.Pairwise.imp (fun h => (String.ne_of_lt h)) (List.pairwise_map.mpr ?_)
  refine List.Pairwise.filterMap _ (fun a a' hlt d hd d' hd' => ?_) p.openEnds.ascending
  rw [(danger?_eq_some_iff.mp hd).1, (danger?_eq_some_iff.mp hd').1]
  exact hlt

/-- Relaying a wire keeps other wires in the danger they were in. -/
theorem Threatened.route {d : Endangered} (h : Threatened site p d e id) (hne : d.wire ≠ wire)
    (i : Nat) : Threatened site (p.route wire i) d e id := by
  refine ⟨h.opened, h.reach_eq, ?_, h.ahead, h.far⟩
  rw [queue_route, if_neg hne]
  exact h.waits

theorem Threatened.addPole {d : Endangered} (h : Threatened site p d e id) (slot : Nat) :
    Threatened site (addPole site p slot) d e id :=
  ⟨h.opened, h.reach_eq, h.waits, h.ahead,
    Nat.lt_of_lt_of_le h.far (predict_mono (List.sublist_cons_self _ _))⟩

/-- What the search for the latest pole has picked is one of the poles that fit. -/
private theorem of_mem_foldl_latest {Q : Pole → Prop} (fits : Pole → Prop) [DecidablePred fits]
    {candidates : List Pole} {best : Option Pole} (hfits : ∀ r ∈ candidates, fits r → Q r)
    (hbest : ∀ r ∈ best, Q r) :
    ∀ r ∈ candidates.foldl
      (fun best r => if fits r then
        match best with
        | none => some r
        | some b => if b.slot ≤ r.slot then some r else some b
      else best) best, Q r := by
  induction candidates generalizing best with
  | nil => exact hbest
  | cons c rest ih =>
    refine ih (fun r hr => hfits r (List.mem_cons_of_mem _ hr)) ?_
    dsimp only
    split
    · next hc =>
      have hQ : ∀ r ∈ some c, Q r := by
        rintro r ⟨⟩
        exact hfits c List.mem_cons_self hc
      cases best with
      | none => exact hQ
      | some b =>
        dsimp only
        split
        · exact hQ
        · exact hbest
    · exact hbest

theorem mergeable?_eq_some {color : Color} {first last : Nat}
    (h : mergeable? site p wire color first last = some pole) :
    (∃ i : Nat, p.poles[i]? = some pole) ∧ first ≤ pole.slot ∧ pole.slot ≤ last ∧
      hasRoom site wire color pole = true := by
  -- Whatever pole is picked has passed the test for it.
  refine of_mem_foldl_latest
    (Q := fun r => (∃ i : Nat, p.poles[i]? = some r) ∧ first ≤ r.slot ∧ r.slot ≤ last ∧
      hasRoom site wire color r = true)
    (fun r => first ≤ r.slot ∧ r.slot ≤ last ∧ hasRoom site wire color r = true)
    (fun r hr hfits => ⟨?_, hfits⟩) (by simp) pole h
  obtain ⟨i, -, hi⟩ := List.mem_filterMap.mp hr
  exact ⟨i, hi⟩

theorem latestFree_eq_some {schedule : List ScheduledPole} {first count slot : Nat}
    (h : latestFree schedule first count = some slot) :
    first ≤ slot ∧ slot < first + count ∧ slot ∉ schedule.map (·.slot) := by
  induction count with
  | zero => cases h
  | succ count ih =>
    rw [latestFree] at h
    split at h
    · obtain ⟨hfirst, hlast, hfree⟩ := ih h
      exact ⟨hfirst, by omega, hfree⟩
    · next hfree =>
      cases h
      exact ⟨by omega, by omega, fun hmem => hfree (isScheduled_iff.mpr hmem)⟩

/-- A relayed wire hops to a pole with room for it, or to a new pole in a free slot. -/
theorem exists_hop_of_relay {round : Nat} {d : Endangered} (h : Agrees site p)
    (hd : Threatened site p d e id) (hq : relay site round p d = .ok q) :
    (∃ pole, Hop site p d.wire pole e id ∧ q = p.route d.wire pole.index) ∨
      ∃ slot pole, p.slots.size ≤ slot ∧ slot ∉ p.schedule.map (·.slot) ∧
        pole.index = p.poles.size ∧ Hop site (addPole site p slot) d.wire pole e id ∧
        q = (addPole site p slot).route d.wire pole.index := by
  obtain ⟨color, hcolor, hq⟩ := bind_eq_ok.mp hq
  have hcolor' : site.colors.get? d.wire = some color := by
    rw [colorOf] at hcolor
    split at hcolor
    · next hget => cases hcolor; exact hget
    · cases hcolor
  -- A recent pole may have room for the wire; otherwise a slot within reach must be free.
  split at hq
  · next pole hmerge =>
    cases hq
    obtain ⟨⟨i, hstored⟩, hfirst, hlast, hroom⟩ := mergeable?_eq_some hmerge
    obtain rfl := h.index i pole hstored
    exact .inl ⟨pole, ⟨hstored, ⟨color, hcolor', hroom⟩, hfirst, hd.opened, hd.reach_eq ▸ hlast,
      hd.waits, Nat.lt_of_le_of_lt hlast hd.far⟩, rfl⟩
  · split at hq
    · next slot hslot =>
      cases hq
      obtain ⟨hfirst, hlast, hfree⟩ := latestFree_eq_some hslot
      have hlast' : slot ≤ d.reach := by omega
      have hfar := (hd.addPole slot).far
      refine .inr ⟨slot, ⟨p.poles.size, slot, .ofSlot slot site.width, []⟩, hfirst, hfree, rfl,
        ⟨by simp [poles_addPole],
          ⟨color, hcolor', by simp [hasRoom, poleCapacity, poleColorCapacity]⟩,
          hfirst, hd.opened, hd.reach_eq ▸ hlast', hd.waits, Nat.lt_of_le_of_lt hlast' hfar⟩, rfl⟩
    · cases hq

end CombinatorNet.Placement
