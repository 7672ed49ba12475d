import CombinatorNet.Proofs.Layout.Locality

/-!
# A cell for each combinator and pole

A pole is scheduled before the slots ahead of it are filled, and takes more wires until its own turn
comes. The slots filled so far hold the combinators up to the next one, and those poles whose slots
lie behind. A pole carries a wire from the start, and this wire waits for a combinator behind the
pole. So no pole is left over when the combinators run out, and none of them comes last.

## Main definitions

* `Cell.combinator?` — the combinator in a cell
* `Pole.Loaded` — a pole has a wire, and no more of them than it has room for
* `Layout.Arranges` — combinators and poles have a cell each

## Main results

* `Layout.getElem?_rowsOf` — where the rows have the cell of a slot
* `Placement.Reached.loaded`, `Placement.Reached.filled` — poles and slots in all states of the pass
* `Network.arranges_of_layout` — combinators and poles have a cell each in every layout
-/

namespace CombinatorNet

/-- The combinator in a cell. -/
def Cell.combinator? : Cell → Option Nat
  | combinator id => some id
  | pole _ => none

/-- A pole has a wire, no more than four of them, none twice, and at most two of each color. -/
structure Pole.Loaded (colors : NameMap Color) (pole : Pole) : Prop where
  pos : 1 ≤ pole.wires.length
  le : pole.wires.length ≤ 4
  nodup : pole.wires.Nodup
  colors_le : ∀ color, pole.wires.countP (fun wire => colors.get? wire = some color) ≤ 2

theorem Pole.Loaded.of_wires_eq {colors : NameMap Color} {pole pole' : Pole}
    (h : pole.Loaded colors) (heq : pole.wires = pole'.wires) : pole'.Loaded colors :=
  ⟨heq ▸ h.pos, heq ▸ h.le, heq ▸ h.nodup, heq ▸ h.colors_le⟩

/-- A layout gives each of some combinators and each of its poles a cell. -/
structure Layout.Arranges (l : Layout) (count : Nat) : Prop where
  /-- The combinators have a slot each, in their order. -/
  combinators : l.slots.toList.filterMap Cell.combinator? = List.range count
  index : ∀ (i : Nat) (pole : Pole), l.poles[i]? = some pole → pole.index = i
  /-- A pole is in the slot it names, and in no other. -/
  poles : ∀ slot i : Nat, l.slots[slot]? = some (.pole i) ↔
    ∃ pole, l.poles[i]? = some pole ∧ pole.slot = slot
  last : ∀ cell, l.slots.back? = some cell → ∃ id, cell = .combinator id
  positions : ∀ cell g, l.position? cell = some g ↔
    ∃ slot : Nat, l.slots[slot]? = some cell ∧ g = .ofSlot slot l.cliqueSize
  rows : ∀ cell g, l.position? cell = some g → (l.rows[g.y]?).bind (·[g.x]?) = some cell
  distinct : ∀ cell cell' g, l.position? cell = some g → l.position? cell' = some g → cell = cell'
  loads : ∀ pole ∈ l.poles, pole.Loaded l.colors

/-! ### Rows -/

/-- A row is as long as the grid is wide, unless the cells run out. -/
theorem Layout.getElem?_rowsOf {width x : Nat} (hx : x < width) (y : Nat) (cells : List Cell) :
    ((rowsOf width cells)[y]?).bind (·[x]?) = cells[y * width + x]? := by
  induction y generalizing cells with
  | zero =>
    cases cells with
    | nil => simp [rowsOf]
    | cons cell rest =>
      rw [rowsOf, Nat.zero_mul, Nat.zero_add]
      cases x with
      | zero => rfl
      | succ x =>
        have hx' : x < width - 1 := by omega
        simp [hx']
  | succ y ih =>
    cases cells with
    | nil => simp [rowsOf]
    | cons cell rest =>
      -- The rows below are those of the cells behind the first row.
      have hslot : (y + 1) * width + x = width - 1 + (y * width + x) + 1 := by
        rw [Nat.succ_mul]
        omega
      rw [rowsOf, List.getElem?_cons_succ, ih, List.getElem?_drop, hslot, List.getElem?_cons_succ]

namespace Placement

variable {site : Site} {p q : Placement} {wire : String} {pole : Pole} {e : OpenEnd}
  {i id slot : Nat}

/-! ### The load of a pole -/

/-- A pole with room for a wire is loaded with it. -/
theorem Hop.loaded {r : Pole} (hop : Hop site p wire pole e id) (hnodup : pole.wires.Nodup)
    (hcolors : ∀ color, pole.wires.countP (fun w => site.colors.get? w = some color) ≤ 2)
    (hr : r.wires = pole.wires ++ [wire]) : r.Loaded site.colors := by
  obtain ⟨color, hcolor, hroom⟩ := hop.color
  simp only [hasRoom, Bool.and_eq_true, decide_eq_true_eq] at hroom
  have hlength : pole.wires.length < 4 := hroom.1.1
  have hcount : pole.wires.countP (fun w => site.colors.get? w = some color) < 2 := hroom.2
  constructor
  · simp [hr]
  · rw [hr, List.length_append, List.length_singleton]
    omega
  · rw [hr]
    exact hop.nodup_concat hnodup
  · intro color'
    rw [hr, List.countP_append, List.countP_singleton, hcolor]
    -- The pole had room for this color, and takes no wire of another one.
    by_cases heq : color = color'
    · subst heq
      simp only [decide_true, if_true]
      omega
    · simpa [heq] using hcolors color'

/-- In every state of the pass, poles are loaded. -/
theorem Reached.loaded (h : Reached site p) (hpole : p.poles[i]? = some pole) :
    pole.Loaded site.colors := by
  induction h generalizing i pole with
  | initial => simp [Placement.initial] at hpole
  | expire _ ih => exact ih hpole
  | merge hp hop ih =>
    obtain ⟨r, hr, -, -, ⟨-, rfl, hwires⟩ | ⟨-, hwires⟩⟩ := hop.exists_pole hpole
    · exact hop.loaded (hp.agrees.nodup_wires i r hr) (ih hr).colors_le hwires
    · exact (ih hr).of_wires_eq hwires
  | splice hp hslot hfree hindex hop ih =>
    obtain ⟨r, hr, -, -, ⟨hi, rfl, hwires⟩ | ⟨hne, hwires⟩⟩ := hop.exists_pole hpole
    · -- The new pole had no wire before.
      rw [poles_addPole, if_pos (hi.trans hindex)] at hr
      cases hr
      exact hop.loaded List.nodup_nil (fun _ => Nat.zero_le _) hwires
    · rw [poles_addPole, if_neg (hindex ▸ hne)] at hr
      exact (ih hr).of_wires_eq hwires
  | placePole _ _ _ hq ih =>
    rw [placePole_eq] at hq
    obtain ⟨queues, openEnds, segments, rfl⟩ := connectEach_frame hq
    exact ih hpole
  | placeCombinator _ _ _ _ hq ih =>
    rw [placeCombinator_eq] at hq
    obtain ⟨queues, openEnds, segments, rfl⟩ := connectEach_frame hq
    exact ih hpole

/-- While a pole is ahead, a combinator is too. -/
theorem Reached.next_lt_of_pole (h : Reached site p) (hpole : p.poles[i]? = some pole)
    (hahead : p.slots.size ≤ pole.slot) : p.next < site.connections.size := by
  -- The first wire of the pole waits for a combinator.
  obtain ⟨wire, hwire⟩ := List.exists_mem_of_length_pos (h.loaded hpole).pos
  obtain ⟨e, id, hr⟩ := h.agrees.relayed hpole hahead hwire
  obtain ⟨side, rest, hwaits⟩ := hr.waits
  by_contra hdone
  rw [Site.contactsFrom_of_le (Nat.le_of_not_lt hdone)] at hwaits
  cases hwaits

/-! ### The slots that are filled -/

/-- A new pole is in no slot but its own. -/
theorem exists_slot_addPole {slot' : Nat} (hne : slot' ≠ slot) :
    (∃ pole, (addPole site p slot).poles[i]? = some pole ∧ pole.slot = slot') ↔
      ∃ pole, p.poles[i]? = some pole ∧ pole.slot = slot' := by
  rw [poles_addPole]
  split
  · next hi =>
    subst hi
    rw [Array.getElem?_eq_none (Nat.le_refl _)]
    constructor
    · rintro ⟨r, hr, rfl⟩
      cases hr
      exact absurd rfl hne
    · rintro ⟨r, hr, -⟩
      cases hr
  · rfl

/-- The filled slots hold the combinators up to the next one and the poles with these slots. -/
structure Filled (site : Site) (p : Placement) : Prop where
  combinators : p.slots.toList.filterMap Cell.combinator? = List.range p.next
  next_le : p.next ≤ site.connections.size
  poles : ∀ slot i : Nat, p.slots[slot]? = some (.pole i) ↔
    slot < p.slots.size ∧ ∃ pole, p.poles[i]? = some pole ∧ pole.slot = slot
  positions : ∀ slot id : Nat, p.slots[slot]? = some (.combinator id) →
    p.positions[id]? = some (.ofSlot slot site.width)
  last : ∀ i, p.slots.back? = some (.pole i) → p.next < site.connections.size

theorem filled_initial (site : Site) : Filled site (initial site) where
  combinators := rfl
  next_le := Nat.zero_le _
  poles slot i := by simp [initial]
  positions slot id h := by simp [initial] at h
  last i h := by simp [initial] at h

theorem Filled.route (h : Filled site p) (wire : String) (i : Nat) :
    Filled site (p.route wire i) :=
  ⟨h.combinators, h.next_le,
    fun slot j => (h.poles slot j).trans (and_congr_right' exists_slot_route.symm), h.positions,
    h.last⟩

theorem Filled.addPole (h : Filled site p) (hslot : p.slots.size ≤ slot) :
    Filled site (addPole site p slot) := by
  refine ⟨h.combinators, h.next_le, fun slot' i => (h.poles slot' i).trans ?_, h.positions, h.last⟩
  refine and_congr_right fun hlt => (exists_slot_addPole ?_).symm
  omega

theorem Filled.placePole (h : Filled site p) (hp : Reached site p)
    (hi : ⟨p.slots.size, i⟩ ∈ p.schedule) (hq : placePole site p i = .ok q) : Filled site q := by
  obtain ⟨pole, hpole, hslot⟩ := hp.agrees.exists_pole hi
  rw [placePole_eq] at hq
  obtain ⟨queues, openEnds, segments, rfl⟩ := connectEach_frame hq
  have hsize : (p.slots.push (.pole i)).size = p.slots.size + 1 := Array.size_push _
  refine ⟨?_, h.next_le, fun slot j => ?_, fun slot id hid => ?_, fun _ _ => ?_⟩
  · show (p.slots.push (.pole i)).toList.filterMap _ = List.range p.next
    rw [Array.toList_push, List.filterMap_append, h.combinators]
    exact List.append_nil _
  · show (p.slots.push (.pole i))[slot]? = _ ↔ slot < (p.slots.push (.pole i)).size ∧ _
    rw [Array.getElem?_push, hsize]
    split
    · next heq =>
      -- In this slot there is the one pole scheduled for it.
      subst heq
      rw [Option.some_inj, Cell.pole.injEq]
      constructor
      · rintro rfl
        exact ⟨Nat.lt_succ_self _, pole, hpole, hslot⟩
      · rintro ⟨-, hj⟩
        exact hp.agrees.eq_of_slot hi ((hp.agrees.mem_schedule _ _).mpr ⟨Nat.le_refl _, hj⟩)
    · next hne =>
      rw [h.poles]
      refine and_congr_left fun _ => ?_
      omega
  · change (p.slots.push (.pole i))[slot]? = _ at hid
    rw [Array.getElem?_push] at hid
    split at hid
    · cases hid
    · exact h.positions slot id hid
  · exact hp.next_lt_of_pole hpole hslot.ge

theorem Filled.placeCombinator (h : Filled site p) (hp : Reached site p) (hwidth : 0 < site.width)
    (hfree : p.slots.size ∉ p.schedule.map (·.slot)) (hnext : p.next < site.connections.size)
    (hq : placeCombinator site p = .ok q) : Filled site q := by
  have hpositions : p.positions.size = p.next := (hp.located hwidth).positions
  rw [placeCombinator_eq] at hq
  obtain ⟨queues, openEnds, segments, rfl⟩ := connectEach_frame hq
  have hsize : (p.slots.push (.combinator p.next)).size = p.slots.size + 1 := Array.size_push _
  refine ⟨?_, hnext, fun slot i => ?_, fun slot id hid => ?_, fun i hi => ?_⟩
  · show (p.slots.push (.combinator p.next)).toList.filterMap _ = List.range (p.next + 1)
    rw [Array.toList_push, List.filterMap_append, h.combinators, List.range_succ]
    rfl
  · show (p.slots.push (.combinator p.next))[slot]? = _ ↔
      slot < (p.slots.push (.combinator p.next)).size ∧ _
    rw [Array.getElem?_push, hsize]
    split
    · next heq =>
      subst heq
      refine iff_of_false (fun heq => ?_) ?_
      · cases heq
      · rintro ⟨-, hpole⟩
        exact hfree (mem_slots_iff.mpr ⟨i, (hp.agrees.mem_schedule _ _).mpr ⟨Nat.le_refl _, hpole⟩⟩)
    · next hne =>
      rw [h.poles]
      refine and_congr_left fun _ => ?_
      omega
  · change (p.slots.push (.combinator p.next))[slot]? = _ at hid
    show (p.positions.push _)[id]? = _
    rw [Array.getElem?_push] at hid ⊢
    split at hid
    · next heq =>
      cases hid
      rw [if_pos hpositions.symm, heq]
    · have hold := h.positions slot id hid
      obtain ⟨hlt, -⟩ := Array.getElem?_eq_some_iff.mp hold
      rw [if_neg (Nat.ne_of_lt hlt), hold]
  · change (p.slots.push (.combinator p.next)).back? = _ at hi
    rw [Array.back?_push] at hi
    cases hi

/-- In every state of the pass, the slots behind hold what was placed into them. -/
theorem Reached.filled (h : Reached site p) (hwidth : 0 < site.width) : Filled site p := by
  induction h with
  | initial => exact filled_initial site
  | expire _ ih => exact ⟨ih.combinators, ih.next_le, ih.poles, ih.positions, ih.last⟩
  | merge _ _ ih => exact ih.route _ _
  | splice _ hslot _ _ _ ih => exact (ih.addPole hslot).route _ _
  | placePole hp _ hi hq ih => exact ih.placePole hp hi hq
  | placeCombinator hp _ hfree hnext hq ih => exact ih.placeCombinator hp hwidth hfree hnext hq

/-- What has a position has the slot at this position. -/
theorem Filled.position?_eq_some_iff (h : Filled site p) (hlocated : Located site p)
    (hbehind : ∀ (i : Nat) (pole : Pole), p.poles[i]? = some pole → pole.slot < p.slots.size)
    {cell : Cell} {g : GridPosition} : p.position? site cell = some g ↔
      ∃ slot : Nat, p.slots[slot]? = some cell ∧ g = .ofSlot slot site.width := by
  cases cell with
  | combinator id =>
    change p.positions[id]? = some g ↔ _
    constructor
    · intro hg
      -- The combinator is before the next one, so it is in a slot.
      obtain ⟨hid, -⟩ := Array.getElem?_eq_some_iff.mp hg
      have hmem : id ∈ p.slots.toList.filterMap Cell.combinator? := by
        rw [h.combinators, List.mem_range, ← hlocated.positions]
        exact hid
      obtain ⟨cell, hcell, heq⟩ := List.mem_filterMap.mp hmem
      cases cell with
      | pole i => cases heq
      | combinator id' =>
        obtain rfl : id' = id := Option.some_inj.mp heq
        obtain ⟨slot, hslot⟩ := Array.mem_iff_getElem?.mp (Array.mem_def.mpr hcell)
        exact ⟨slot, hslot, Option.some_inj.mp (hg.symm.trans (h.positions slot id' hslot))⟩
    · rintro ⟨slot, hslot, rfl⟩
      exact h.positions slot id hslot
  | pole i =>
    change (p.poles[i]?).map (·.position) = some g ↔ _
    rw [Option.map_eq_some_iff]
    constructor
    · rintro ⟨pole, hpole, rfl⟩
      exact ⟨pole.slot, (h.poles _ _).mpr ⟨hbehind i pole hpole, pole, hpole, rfl⟩,
        hlocated.poles i pole hpole⟩
    · rintro ⟨slot, hslot, rfl⟩
      obtain ⟨-, pole, hpole, rfl⟩ := (h.poles _ _).mp hslot
      exact ⟨pole, hpole, hlocated.poles i pole hpole⟩

/-- When all combinators are placed, they and the poles have a cell each. -/
theorem Reached.arranges (h : Reached site p) (hwidth : 0 < site.width)
    (hdone : site.connections.size ≤ p.next) :
    (p.toLayout site).Arranges site.connections.size := by
  have hfilled := h.filled hwidth
  have hbehind : ∀ (i : Nat) (pole : Pole), p.poles[i]? = some pole → pole.slot < p.slots.size := by
    intro i pole hpole
    by_contra hahead
    exact absurd (h.next_lt_of_pole hpole (Nat.le_of_not_lt hahead)) (Nat.not_lt_of_le hdone)
  have hposition : ∀ cell g, (p.toLayout site).position? cell = some g ↔
      ∃ slot : Nat, p.slots[slot]? = some cell ∧ g = .ofSlot slot site.width :=
    fun cell g => hfilled.position?_eq_some_iff (h.located hwidth) hbehind
  have hrows : ∀ cell g, (p.toLayout site).position? cell = some g →
      ((p.toLayout site).rows[g.y]?).bind (·[g.x]?) = some cell := by
    intro cell g hg
    obtain ⟨slot, hslot, rfl⟩ := (hposition cell g).mp hg
    have hcell := Layout.getElem?_rowsOf (Nat.mod_lt slot hwidth) (slot / site.width) p.slots.toList
    rw [Nat.div_add_mod'] at hcell
    exact hcell.trans (Array.getElem?_toList.trans hslot)
  refine ⟨?_, h.agrees.index, fun slot i => (hfilled.poles slot i).trans ?_, fun cell hlast => ?_,
    hposition, hrows, fun cell cell' g hg hg' => ?_, fun pole hpole => ?_⟩
  · rw [Nat.le_antisymm hdone hfilled.next_le]
    exact hfilled.combinators
  · refine and_iff_right_of_imp ?_
    rintro ⟨pole, hpole, rfl⟩
    exact hbehind i pole hpole
  · cases cell with
    | combinator id => exact ⟨id, rfl⟩
    | pole i => exact absurd (hfilled.last i hlast) (Nat.not_lt_of_le hdone)
  · exact Option.some_inj.mp ((hrows cell g hg).symm.trans (hrows cell' g hg'))
  · obtain ⟨i, hi⟩ := Array.mem_iff_getElem?.mp hpole
    exact h.loaded hi

end Placement

theorem Network.width_site_pos (n : Network) (settings : LayoutSettings) (colors : NameMap Color) :
    0 < (n.site settings colors).width :=
  Nat.lt_of_lt_of_le Nat.two_pos (Nat.le_max_right _ _)

theorem Network.two_le_width_site (n : Network) (settings : LayoutSettings)
    (colors : NameMap Color) : 2 ≤ (n.site settings colors).width :=
  Nat.le_max_right _ _

theorem Network.size_connections_site (n : Network) (settings : LayoutSettings)
    (colors : NameMap Color) : (n.site settings colors).connections.size = n.nodes.length := by
  simp [site, Site.ofConnections]

/-- In a layout each combinator and each pole has a cell of its own, and no pole has more wires than
it has room for. -/
theorem Network.arranges_of_layout (n : Network) (settings : LayoutSettings)
    (colors : NameMap Color) {l : Layout} (h : (n.site settings colors).layout = .ok l) :
    l.cliqueSize = max settings.cliqueSize 2 ∧ l.colors = colors ∧ l.Arranges n.nodes.length := by
  obtain ⟨p, hp, hdone, rfl⟩ := Placement.exists_reached_of_layout h
  have harranges := hp.arranges (n.width_site_pos settings colors) hdone
  rw [n.size_connections_site settings colors] at harranges
  exact ⟨rfl, rfl, harranges⟩

/-- Where a value of the layout is found, there is a layout with this value. -/
theorem Layout.exists_of_toOption {α : Type} {x : Except LayoutFault Layout} {f : Layout → α} {b : α}
    (h : x.toOption.map f = some b) : ∃ l, x = .ok l ∧ f l = b := by
  cases x with
  | error e => cases h
  | ok l => exact ⟨l, rfl, Option.some_inj.mp h⟩

/-- Six combinators in rows of two, of which the first and the last share two wires. -/
def Network.distantBundle : Network :=
  let spacer : Node := ⟨.ofHeading "" 1, [], [], .nowhere, ∅⟩
  { Network.empty {} with
    nodes := [{ spacer with outputs := ["A", "B"] }, spacer, spacer, spacer, spacer,
      { spacer with inputs := ["A", "B"] }] }

theorem Network.arranges_of_layout_distantBundle :
    ∃ l, (distantBundle.site ⟨2, 5⟩ (.ofList [("A", .red), ("B", .red)])).layout = .ok l ∧
      l.poles.toList.map (·.wires) = [["A", "B"], ["A", "B"]] ∧
      l.cliqueSize = max 2 2 ∧ l.colors = .ofList [("A", .red), ("B", .red)] ∧ l.Arranges 6 := by
  have hwires : (distantBundle.site ⟨2, 5⟩ (.ofList [("A", .red), ("B", .red)])).layout.toOption.map
      (·.poles.toList.map (·.wires)) = some [["A", "B"], ["A", "B"]] := by decide +kernel
  obtain ⟨l, hl, hwires⟩ := Layout.exists_of_toOption hwires
  exact ⟨l, hl, hwires, arranges_of_layout distantBundle ⟨2, 5⟩ _ hl⟩

end CombinatorNet
