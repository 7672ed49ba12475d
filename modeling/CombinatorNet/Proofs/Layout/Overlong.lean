import CombinatorNet.Proofs.Layout.Stages

/-!
# Rows that are too long

If the cube of the width does not fit in a word, a build with overflow checks lays out nothing. In a
release build the end of a window may wrap around to a slot that lies behind. Two combinators that
share a wire are out of reach of each other there even if they stand side by side: the wire is in
danger, and it has no slot for a pole. So the pass is too complex in its first round, whether the
limit to the rounds has wrapped around to 0 or not.

## Main definitions

* `Placement.Direct` — the pass has placed one combinator after the other
* `Network.pairBehind` — two combinators that share a wire, behind some others

## Main results

* `Placement.Direct.exists_endangered` — a wire is in danger if its first slot does not reach the
  next one
* `Placement.Direct.layout_eq_error` — a wire whose window ends before the next slot is one too many
* `Network.layout_pairBehind` — where the window wraps around, the pass fails between two neighbors
-/

namespace CombinatorNet

namespace Placement

variable {site : Site} {p q : Placement} {wire : String} {d : Endangered} {round before : Nat}

theorem endangered_eq_nil_of_closed (h : ∀ wire, p.openEnds.get? wire = none) :
    endangered site p = [] := by
  refine List.eq_nil_iff_forall_not_mem.mpr fun d hd => ?_
  obtain ⟨e, id, hd⟩ := mem_endangered.mp hd
  have hopen := hd.opened
  rw [h] at hopen
  cases hopen

theorem Agrees.queue_of_closed (h : Agrees site p) (hclosed : ∀ wire, p.openEnds.get? wire = none)
    (wire : String) : p.queue wire = site.contactsFrom wire p.next := by
  rcases h.queue wire with hqueue | ⟨pole, e, id, -, hr⟩
  · exact hqueue
  · have hopen := hr.opened
    rw [hclosed] at hopen
    cases hopen

/-- A combinator with one contact is placed by placing it. -/
theorem connect_of_placeCombinator {contact : Contact}
    (hnext : nextContacts site p = [(wire, contact)]) (hq : placeCombinator site p.expire = .ok q) :
    connect site p.slots.size (enterCombinator site p.expire) wire contact = .ok q := by
  have hplace : connectEach site p.slots.size (enterCombinator site p.expire)
    (nextContacts site p) = .ok q := hq
  rw [hnext] at hplace
  obtain ⟨mid, hmid, hrest⟩ := bind_eq_ok.mp hplace
  cases hrest
  exact hmid

/-- The pass comes to a slot with the combinator of its number, and it has placed no pole. -/
structure Direct (site : Site) (p : Placement) : Prop where
  visits : Visits site 0 .slot p
  size : p.slots.size = p.next
  poles : p.poles = #[]
  layout : site.layout = (complete site p 0).map (·.toLayout site)

theorem direct_initial (site : Site) : Direct site (initial site) :=
  ⟨.initial, rfl, rfl, site.layout_eq_map⟩

/-- As long as no wire is in danger, the pass places one combinator after the other. -/
theorem Direct.exists_next (h : Direct site p) (hsite : site.Colored)
    (hsafe : endangered site p = []) (hnext : p.next < site.connections.size) :
    ∃ q, Direct site q ∧ placeCombinator site p.expire = .ok q ∧ q.next = p.next + 1 := by
  obtain ⟨q, hfill, hq, hnone⟩ := exists_fill_of_safe hsite h.visits.holds h.poles hsafe 0
  have hplaced : q.next = p.next + 1 := by
    rw [placeCombinator_eq] at hq
    rw [next_connectEach hq]
    rfl
  refine ⟨q, ⟨h.visits.fill hnext hfill, ?_, hnone, ?_⟩, hq, hplaced⟩
  · rw [size_slots_fill hfill, hplaced, h.size]
  · rw [h.layout, complete_of_fill hnext hfill]

/-- Combinators without wires are placed without more ado. -/
theorem exists_direct_behind (hsite : site.Colored)
    (hbare : ∀ id < before, site.connections.getD id [] = [])
    (hsize : before ≤ site.connections.size) :
    ∃ p, Direct site p ∧ p.next = before ∧ ∀ wire, p.openEnds.get? wire = none := by
  induction before with
  | zero => exact ⟨initial site, direct_initial site, rfl, fun _ => rfl⟩
  | succ before ih =>
    obtain ⟨p, hp, rfl, hclosed⟩ :=
      ih (fun id hid => hbare id (Nat.lt_succ_of_lt hid)) (Nat.le_of_succ_le hsize)
    obtain ⟨q, hdirect, hq, hplaced⟩ :=
      hp.exists_next hsite (endangered_eq_nil_of_closed hclosed) hsize
    refine ⟨q, hdirect, hplaced, fun wire => ?_⟩
    have hnothing : contactsOf wire (nextContacts site p.expire) = [] := by
      show contactsOf wire (nextContacts site p) = []
      rw [nextContacts, hbare _ (Nat.lt_succ_self _)]
      rfl
    exact (openEnds_connectEach hq hnothing).trans (hclosed wire)

/-- The wire of the next two combinators is in danger behind the first of them if their slots are
out of reach of each other. It is the only one then, and its window is over. -/
theorem Direct.exists_endangered (h : Direct site p) (hsite : site.Colored)
    (hclosed : ∀ wire, p.openEnds.get? wire = none) {side side' : Side}
    (hcontacts : site.contactsFrom wire p.next =
      [.combinator p.next side, .combinator (p.next + 1) side'])
    (hnext : nextContacts site p = [(wire, .combinator p.next side)])
    (hsize : p.next + 1 < site.connections.size) (hshort : reach site.width p.next ≤ p.next) :
    ∃ q, Direct site q ∧ q.next = p.next + 1 ∧ endangered site q ≠ [] ∧
      ∀ d ∈ endangered site q, d.reach < q.slots.size := by
  obtain ⟨q, hdirect, hq, hplaced⟩ :=
    h.exists_next hsite (endangered_eq_nil_of_closed hclosed) (Nat.lt_of_succ_lt hsize)
  have hqueue := (h.visits.holds.agrees.queue_of_closed hclosed wire).trans hcontacts
  have hq' := connect_of_placeCombinator hnext hq
  have hopen : q.openEnds.get? wire = some ⟨.combinator p.next side, p.slots.size⟩ := by
    rw [openEnds_connect hq', if_pos rfl, if_neg]
    show (p.queue wire).tail ≠ []
    rw [hqueue]
    exact List.cons_ne_nil _ _
  have hwaits : q.queue wire = [.combinator (p.next + 1) side'] := by
    rw [queue_connect hq', if_pos rfl]
    exact congrArg List.tail hqueue
  have hbehind : reach site.width p.slots.size < q.slots.size := by
    rw [hdirect.size, hplaced, h.size]
    exact Nat.lt_succ_of_le hshort
  have hfar : reach site.width p.slots.size <
      predict q.schedule q.slots.size (p.next + 1 - q.next) := by
    rw [hdirect.visits.holds.agrees.schedule_eq_nil hdirect.poles, predict_nil]
    omega
  have hmem : ⟨wire, reach site.width p.slots.size⟩ ∈ endangered site q :=
    mem_endangered.mpr ⟨_, p.next + 1, hopen, rfl, ⟨side', [], hwaits⟩, hplaced.le, hfar⟩
  refine ⟨q, hdirect, hplaced, List.ne_nil_of_mem hmem, fun d hd => ?_⟩
  -- No other wire is open.
  obtain ⟨e, id, hd⟩ := mem_endangered.mp hd
  have hopened := hd.opened
  by_cases hwire : d.wire = wire
  · rw [hwire, hopen] at hopened
    cases hopened
    exact hd.reach_eq ▸ hbehind
  · rw [openEnds_connect hq', if_neg hwire] at hopened
    have hnone : (enterCombinator site p.expire).openEnds.get? d.wire = none := hclosed d.wire
    rw [hnone] at hopened
    cases hopened

/-- Without poles to join and without a slot up to the end of its window, a wire is not relayed. -/
theorem relay_eq_error_of_behind (hcolor : (site.colors.get? d.wire).isSome)
    (hpoles : p.poles = #[]) (hbehind : d.reach < p.slots.size) :
    relay site round p d = .error (.tooComplex round p.slots.size) := by
  obtain ⟨color, hcolor⟩ := Option.isSome_iff_exists.mp hcolor
  have hmerge : mergeable? site p d.wire color p.slots.size d.reach = none := by
    simp [mergeable?, hpoles]
  have hempty : d.reach + 1 - p.slots.size = 0 := by omega
  simp [relay, colorOf, hcolor, hmerge, hempty, latestFree, bind, Except.bind, throw, throwThe,
    MonadExceptOf.throw]

/-- Where the windows of the wires in danger are over, the pass fails in the first round, if the
limit leaves room for one, or else for the limit. -/
theorem Direct.layout_eq_error (h : Direct site p) (hsite : site.Colored)
    (hnext : p.next < site.connections.size) (hne : endangered site p ≠ [])
    (hbehind : ∀ d ∈ endangered site p, d.reach < p.slots.size) :
    site.layout = .error (.tooComplex 1 p.slots.size) := by
  have hsettle : settle site (roundLimit site) p.expire = .error (.tooComplex 1 p.slots.size) := by
    cases hlimit : roundLimit site with
    | zero =>
      -- The limit has wrapped around, and there is no round.
      rw [settle, hlimit]
      exact if_neg fun hnone => hne (List.isEmpty_iff.mp hnone)
    | succ left =>
      -- The first wire of the first round has no slot.
      have hfirst : roundLimit site - left = 1 := by omega
      obtain ⟨d, rest, hwires⟩ := List.exists_cons_of_ne_nil hne
      have hmem : d ∈ endangered site p := hwires ▸ List.mem_cons_self
      obtain ⟨e, id, hd⟩ := mem_endangered.mp hmem
      have hrelay : relay site 1 p.expire d = .error (.tooComplex 1 p.slots.size) :=
        relay_eq_error_of_behind (h.visits.holds.isSome_of_open hsite hd.opened) h.poles
          (hbehind d hmem)
      have hwires' : endangered site p.expire = d :: rest := hwires
      simp only [settle, hwires', hfirst, relayEach, hrelay]
      rfl
  have hfill : fill site p 0 = .error (.tooComplex 1 p.slots.size) := by
    rw [fill, hsettle]
    rfl
  rw [h.layout, complete_of_fill_eq_error hnext hfill]
  rfl

end Placement

/-- Two combinators that share a wire, behind some others. -/
def Network.pairBehind (before : Nat) : Network :=
  let spacer : Node := ⟨.ofHeading "" 1, [], [], .nowhere, ∅⟩
  { Network.empty {} with
    nodes := List.replicate before spacer ++
      [{ spacer with outputs := ["A"] }, { spacer with inputs := ["A"] }] }

theorem Network.connections_pairBehind (before : Nat) (settings : LayoutSettings)
    (colors : NameMap Color) : ((pairBehind before).site settings colors).connections.toList =
      List.replicate before [] ++ [[⟨"A", .output⟩], [⟨"A", .input⟩]] := by
  simp [site, Site.ofConnections, pairBehind, Node.connections]

theorem Network.colored_pairBehind (before : Nat) (settings : LayoutSettings) :
    ((pairBehind before).site settings (.ofList [("A", .red)])).Colored := by
  have hred : ((NameMap.ofList [("A", Color.red)]).get? "A").isSome := by decide
  intro connections hmem c hc
  rw [Array.mem_def, connections_pairBehind, List.mem_append, List.mem_replicate] at hmem
  simp only [List.mem_cons, List.not_mem_nil, or_false] at hmem
  obtain ⟨-, rfl⟩ | rfl | rfl := hmem
  · cases hc
  · exact List.mem_singleton.mp hc ▸ hred
  · exact List.mem_singleton.mp hc ▸ hred

/-- Where the window of the first of the two wraps around to its own slot, the pass stops behind
it. -/
theorem Network.layout_pairBehind (before : Nat) (settings : LayoutSettings)
    (hshort : reach (max settings.cliqueSize 2) before ≤ before) :
    let site := (pairBehind before).site settings (.ofList [("A", .red)])
    (∃ p, Placement.Visits site 0 .slot p ∧ p.next < site.connections.size ∧
      p.slots.size = before + 1 ∧ Placement.endangered site p ≠ []) ∧
    site.layout = .error (.tooComplex 1 (before + 1)) := by
  intro site
  have hcolored : site.Colored := colored_pairBehind before settings
  have hconnections := connections_pairBehind before settings (.ofList [("A", .red)])
  have hsize : site.connections.size = before + 2 := by
    rw [← Array.length_toList, hconnections]
    simp
  have hbare : ∀ id < before, site.connections.getD id [] = [] := by
    intro id hid
    rw [Array.getD_eq_getD_getElem?, ← Array.getElem?_toList, hconnections,
      List.getElem?_append_left (by simpa using hid)]
    simp [hid]
  have hfirst : site.connections.getD before [] = [⟨"A", .output⟩] := by
    rw [Array.getD_eq_getD_getElem?, ← Array.getElem?_toList, hconnections,
      List.getElem?_append_right (by simp)]
    simp
  have hcontacts : site.contactsFrom "A" before =
      [.combinator before .output, .combinator (before + 1) .input] := by
    rw [Site.contactsFrom, hconnections, List.drop_append, List.drop_of_length_le (by simp)]
    simp [contactsIn]
  obtain ⟨p, hp, rfl, hclosed⟩ :=
    Placement.exists_direct_behind hcolored hbare (by omega)
  have hcontact : Placement.nextContacts site p = [("A", .combinator p.next .output)] := by
    rw [Placement.nextContacts, hfirst]
    rfl
  obtain ⟨q, hq, hplaced, hne, hbehind⟩ :=
    hp.exists_endangered hcolored hclosed hcontacts hcontact (by omega) hshort
  have hnext : q.next < site.connections.size := by omega
  have hsize := hq.size.trans hplaced
  exact ⟨⟨q, hq.visits, hnext, hsize, hne⟩, hsize ▸ hq.layout_eq_error hcolored hnext hne hbehind⟩

end CombinatorNet
