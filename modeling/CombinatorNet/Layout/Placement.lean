import CombinatorNet.Error
import CombinatorNet.Layout.Grid
import CombinatorNet.Word

/-!
# Placing combinators and relay poles

The slots of the grid are filled one after the other. Poles are scheduled into later slots;
combinators take the other slots in their order. A wire that has been placed at a contact and has
more contacts ahead is open, and its next contact must lie within reach: in a row that is less than
the width away. Before a slot is filled, each open wire whose next combinator is predicted to land
out of reach is relayed, either through a recent pole with room for it or through a new pole in the
latest free slot within reach.

The reach of a slot and the limits of the pass are computed in words. They are the numbers that they
stand for as long as the cube of the width fits in a word; beyond that a release build goes on with
what the words keep, and a build with overflow checks panics before the first slot.

## Main definitions

* `Site` — what is to be placed, and the settings
* `Site.Fits` — the width is so small that the numbers of the pass fit in words
* `Placement` — the state of the pass
* `windowEnd`, `reach` — the last slot of the rows that are near enough, and what a word keeps of it
* `predict` — the slot that a combinator will take
* `Placement.endangered`, `Placement.relay`, `Placement.settle` — relaying
* `Placement.connect`, `Placement.fill` — filling a slot
* `Placement.roundLimit`, `Placement.runLimit` — the limits of the pass
* `Site.layout`, `Site.layoutChecked` — the whole pass, without and with overflow checks

## Main results

* `Site.Fits.reach_eq`, `Placement.roundLimit_eq`, `Placement.runLimit_eq` — if the numbers fit in
  words, they are what they stand for
* `Placement.next_fill`, `Placement.remaining_fill` — each slot brings the pass closer to its end
-/

namespace CombinatorNet

/-- What a layout is made of. -/
structure Site where
  /-- The width of the grid. -/
  width : Nat
  /-- How many of the latest poles may take further wires. -/
  window : Nat
  /-- The connections of each combinator, inputs first. -/
  connections : Array (List Connection)
  /-- The colors of the wires. -/
  colors : NameMap Color

/-- The cube of the width fits in a word. It is the first number that the pass computes, and if it
fits so do the others. -/
def Site.Fits (site : Site) : Prop := site.width * site.width * site.width < wordSize

instance (site : Site) : Decidable site.Fits := inferInstanceAs (Decidable (_ < _))

/-- A contact of a wire that has further contacts ahead, and the slot it was placed in. -/
structure OpenEnd where
  contact : Contact
  slot : Nat
deriving DecidableEq, Repr, Inhabited

/-- A pole that is still to be placed, and its slot. -/
structure ScheduledPole where
  slot : Nat
  pole : Nat
deriving DecidableEq, Repr, Inhabited

/-- The state of the pass before a slot is filled. -/
structure Placement where
  /-- The contacts of each wire that are still to be placed. -/
  queues : NameMap (List Contact)
  /-- The last placed contact of each wire that has more to come. -/
  openEnds : NameMap OpenEnd
  /-- The poles that are still to be placed. -/
  schedule : List ScheduledPole
  /-- The latest poles, oldest first. -/
  recent : List Nat
  poles : Array Pole
  slots : Array Cell
  positions : Array GridPosition
  segments : Array Segment
  /-- The next combinator. -/
  next : Nat

/-! ### Slots -/

/-- The last slot whose row is less than `width` rows below the row of `slot`. -/
def windowEnd (width slot : Nat) : Nat := (slot / width + width) * width - 1

/-- The last slot that a contact in `slot` is wired to directly: the end of its window, as far as a
word keeps it. To wrap around at each step comes to the same. -/
def reach (width slot : Nat) : Nat := wrapped (windowEnd width slot)

theorem reach_le_windowEnd (width slot : Nat) : reach width slot ≤ windowEnd width slot :=
  wrapped_le _

/-- A window ends less than the square of the width behind its slot. -/
theorem windowEnd_lt {width : Nat} (hwidth : 0 < width) (slot : Nat) :
    windowEnd width slot < slot + width * width := by
  have hrow := Nat.div_mul_le_self slot width
  have hsquare : 0 < width * width := Nat.mul_pos hwidth hwidth
  rw [windowEnd, Nat.add_mul]
  omega

theorem Site.Fits.sq_lt {site : Site} (h : site.Fits) (hwidth : 2 ≤ site.width) :
    site.width * site.width < memoryLimit := by
  have hcube : site.width * site.width * 2 ≤ site.width * site.width * site.width :=
    Nat.mul_le_mul_left _ hwidth
  rw [Fits, wordSize] at h
  rw [memoryLimit]
  omega

/-- The window of each slot that a memory has room for ends where the word says. -/
theorem Site.Fits.reach_eq {site : Site} (h : site.Fits) (hwidth : 2 ≤ site.width) {slot : Nat}
    (hslot : slot ≤ memoryLimit) : reach site.width slot = windowEnd site.width slot := by
  have hend := windowEnd_lt (Nat.lt_of_lt_of_le Nat.two_pos hwidth) slot
  have hsquare := h.sq_lt hwidth
  refine wrapped_eq_self ?_
  rw [memoryLimit] at hslot hsquare
  rw [wordSize]
  omega

/-- How many poles are scheduled between two slots, ends included. -/
def scheduledWithin (schedule : List ScheduledPole) (first last : Nat) : Nat :=
  schedule.countP fun s => decide (first ≤ s.slot) && decide (s.slot ≤ last)

/-- Move a slot on by the poles scheduled before it, until no more of them come into its way. -/
def makeRoom (schedule : List ScheduledPole) (first wanted : Nat) : Nat → Nat → Nat
  | 0, slot => slot
  | rounds + 1, slot =>
    let moved := wanted + scheduledWithin schedule first slot
    if moved = slot then slot else makeRoom schedule first wanted rounds moved

/-- The slot of the combinator that comes `offset` places after the next one if `first` is the next
slot and no more poles are scheduled. Each round but the last passes another pole. -/
def predict (schedule : List ScheduledPole) (first offset : Nat) : Nat :=
  makeRoom schedule first (first + offset) (schedule.length + 1) (first + offset)

/-- Whether a pole is scheduled into a slot. -/
def isScheduled (schedule : List ScheduledPole) (slot : Nat) : Bool :=
  schedule.any fun s => s.slot = slot

/-- The latest free slot among the `count` slots from `first` on. -/
def latestFree (schedule : List ScheduledPole) (first : Nat) : Nat → Option Nat
  | 0 => none
  | count + 1 =>
    if isScheduled schedule (first + count) then latestFree schedule first count
    else some (first + count)

namespace Placement

/-- The contacts of a wire that are still to be placed. -/
def queue (p : Placement) (wire : String) : List Contact := (p.queues.get? wire).getD []

/-- The contacts of each wire, in the order of the combinators and of their connections. -/
def initialQueues (connections : List (List Connection)) : NameMap (List Contact) :=
  connections.zipIdx.foldl
    (fun queues e => e.1.foldl
      (fun queues c =>
        queues.insert c.wire ((queues.get? c.wire).getD [] ++ [.combinator e.2 c.side]))
      queues)
    ∅

/-- The state before the first slot. -/
def initial (site : Site) : Placement where
  queues := initialQueues site.connections.toList
  openEnds := ∅
  schedule := []
  recent := []
  poles := #[]
  slots := #[]
  positions := #[]
  segments := #[]
  next := 0

/-- The color of a wire. -/
def colorOf (site : Site) (wire : String) : Except LayoutFault Color :=
  match site.colors.get? wire with
  | some color => .ok color
  | none => .error (.uncolored wire)

/-! ### Relaying -/

/-- An open wire that must be relayed, and the last slot it reaches. -/
structure Endangered where
  wire : String
  reach : Nat
deriving DecidableEq, Repr, Inhabited

/-- The danger to an open wire, if its next contact is a combinator predicted out of reach. -/
def danger? (site : Site) (p : Placement) (wire : String) (e : OpenEnd) : Option Endangered :=
  match p.queue wire with
  | .combinator id _ :: _ =>
    if p.next ≤ id ∧ reach site.width e.slot < predict p.schedule p.slots.size (id - p.next) then
      some ⟨wire, reach site.width e.slot⟩
    else none
  | _ => none

/-- Put a wire in front of the first one that reaches as far. -/
def insertByReach (e : Endangered) : List Endangered → List Endangered
  | [] => [e]
  | f :: rest => if e.reach ≤ f.reach then e :: f :: rest else f :: insertByReach e rest

theorem perm_insertByReach (e : Endangered) (es : List Endangered) :
    (insertByReach e es).Perm (e :: es) := by
  induction es with
  | nil => exact .refl _
  | cons f es ih =>
    rw [insertByReach]
    split
    · exact .refl _
    · exact (ih.cons f).trans (.swap e f es)

/-- The open wires that must be relayed, the shortest reach first, and in the order of their names
where they reach equally far. -/
def endangered (site : Site) (p : Placement) : List Endangered :=
  (p.openEnds.toList.filterMap fun e => danger? site p e.1 e.2).foldr insertByReach []

/-- Sorting changes the order of the endangered wires only. -/
theorem perm_endangered (site : Site) (p : Placement) :
    (endangered site p).Perm (p.openEnds.toList.filterMap fun e => danger? site p e.1 e.2) := by
  rw [endangered]
  induction p.openEnds.toList.filterMap fun e => danger? site p e.1 e.2 with
  | nil => exact .refl _
  | cons f es ih => exact (perm_insertByReach f _).trans (ih.cons f)

/-- The endangered wires are the open ones that are in danger. -/
theorem mem_endangered_iff {site : Site} {p : Placement} {e : Endangered} :
    e ∈ endangered site p ↔
      ∃ wire openEnd, p.openEnds.get? wire = some openEnd ∧
        danger? site p wire openEnd = some e := by
  rw [(perm_endangered site p).mem_iff, List.mem_filterMap]
  constructor
  · rintro ⟨⟨wire, openEnd⟩, hmem, h⟩
    exact ⟨wire, openEnd, NameMap.mem_toList_iff.1 hmem, h⟩
  · rintro ⟨wire, openEnd, hget, h⟩
    exact ⟨(wire, openEnd), NameMap.mem_toList_iff.2 hget, h⟩

/-- Whether a pole can take a wire of a color. -/
def hasRoom (site : Site) (wire : String) (color : Color) (pole : Pole) : Bool :=
  decide (pole.wires.length < poleCapacity) && !pole.wires.contains wire &&
    decide ((pole.wires.countP fun w => site.colors.get? w = some color) < poleColorCapacity)

/-- The recent pole of the latest slot that can take a wire between two slots. -/
def mergeable? (site : Site) (p : Placement) (wire : String) (color : Color) (first last : Nat) :
    Option Pole :=
  (p.recent.filterMap fun i => p.poles[i]?).foldl
    (fun best pole =>
      if first ≤ pole.slot ∧ pole.slot ≤ last ∧ hasRoom site wire color pole then
        match best with
        | none => some pole
        | some b => if b.slot ≤ pole.slot then some pole else some b
      else best)
    none

/-- Schedule a new pole without wires. -/
def addPole (site : Site) (p : Placement) (slot : Nat) : Placement :=
  let index := p.poles.size
  let recent := p.recent ++ [index]
  { p with
    poles := p.poles.push ⟨index, slot, .ofSlot slot site.width, []⟩
    schedule := ⟨slot, index⟩ :: p.schedule
    recent := recent.drop (recent.length - site.window) }

/-- Make a pole the next contact of a wire. -/
def route (p : Placement) (wire : String) (pole : Nat) : Placement :=
  { p with
    poles := p.poles.modify pole fun q => { q with wires := q.wires ++ [wire] }
    queues := p.queues.insert wire (.pole pole :: p.queue wire) }

/-- Relay a wire no later than the last slot it reaches. The round is reported if there is no free
slot. -/
def relay (site : Site) (round : Nat) (p : Placement) (e : Endangered) :
    Except LayoutFault Placement := do
  let color ← colorOf site e.wire
  -- A pole that is already on its way costs no slot, so it comes first.
  match mergeable? site p e.wire color p.slots.size e.reach with
  | some pole => return p.route e.wire pole.index
  | none =>
    match latestFree p.schedule p.slots.size (e.reach + 1 - p.slots.size) with
    | some slot => return (addPole site p slot).route e.wire p.poles.size
    | none => throw (.tooComplex round p.slots.size)

/-- Relay wires one after the other. -/
def relayEach (site : Site) (round : Nat) :
    Placement → List Endangered → Except LayoutFault Placement
  | p, [] => .ok p
  | p, e :: rest => do relayEach site round (← relay site round p e) rest

/-- How many rounds of relaying a slot may take. -/
def roundLimit (site : Site) : Nat := wrapped (site.width * site.width)

theorem roundLimit_eq {site : Site} (hfits : site.Fits) (hwidth : 2 ≤ site.width) :
    roundLimit site = site.width * site.width := by
  have hsquare := hfits.sq_lt hwidth
  refine wrapped_eq_self ?_
  rw [memoryLimit] at hsquare
  rw [wordSize]
  omega

/-- Relay endangered wires until none is left, in at most the given number of rounds: new poles may
endanger further wires. -/
def settle (site : Site) : Nat → Placement → Except LayoutFault Placement
  | 0, p =>
    if (endangered site p).isEmpty then .ok p
    else .error (.tooComplex (roundLimit site + 1) p.slots.size)
  | left + 1, p =>
    match endangered site p with
    | [] => .ok p
    | wires => do settle site left (← relayEach site (roundLimit site - left) p wires)

/-! ### Filling slots -/

/-- Forget the recent poles that lie behind. -/
def expire (p : Placement) : Placement :=
  { p with recent := p.recent.filter fun i => p.poles[i]?.any fun pole => p.slots.size ≤ pole.slot }

/-- Draw the segment of a wire from its last contact to a new one, if it has a last contact. -/
def draw (site : Site) (p : Placement) (wire : String) (contact : Contact) :
    Except LayoutFault (Array Segment) :=
  match p.openEnds.get? wire with
  | none => .ok p.segments
  | some e => do return p.segments.push ⟨wire, ← colorOf site wire, e.contact, contact⟩

/-- Place a contact of a wire into a slot: draw the segment that ends there, and leave the wire open
if more contacts are to come. -/
def connect (site : Site) (slot : Nat) (p : Placement) (wire : String) (contact : Contact) :
    Except LayoutFault Placement := do
  let segments ← draw site p wire contact
  -- The contact is the first one that was still to be placed.
  let rest := (p.queue wire).tail
  return { p with
    queues := p.queues.insert wire rest
    openEnds :=
      if rest.isEmpty then p.openEnds.erase wire else p.openEnds.insert wire ⟨contact, slot⟩
    segments }

/-- Place several contacts into a slot. -/
def connectEach (site : Site) (slot : Nat) :
    Placement → List (String × Contact) → Except LayoutFault Placement
  | p, [] => .ok p
  | p, (wire, contact) :: rest => do
    connectEach site slot (← connect site slot p wire contact) rest

/-- Place a scheduled pole into the next slot. -/
def placePole (site : Site) (p : Placement) (pole : Nat) : Except LayoutFault Placement :=
  let slot := p.slots.size
  let wires := (p.poles[pole]?.map (·.wires)).getD []
  connectEach site slot
    { p with
      slots := p.slots.push (.pole pole)
      schedule := p.schedule.filter fun s => s.slot ≠ slot }
    (wires.map fun wire => (wire, .pole pole))

/-- Place the next combinator into the next slot. -/
def placeCombinator (site : Site) (p : Placement) : Except LayoutFault Placement :=
  let slot := p.slots.size
  let id := p.next
  connectEach site slot
    { p with
      slots := p.slots.push (.combinator id)
      positions := p.positions.push (.ofSlot slot site.width)
      next := id + 1 }
    ((site.connections.getD id []).map fun c => (c.wire, .combinator id c.side))

/-- How many poles may follow each other without a combinator. -/
def runLimit (site : Site) : Nat := wrapped (site.width * site.width * site.width)

theorem runLimit_eq {site : Site} (hfits : site.Fits) :
    runLimit site = site.width * site.width * site.width := wrapped_eq_self hfits

/-- Fill the next slot, where `run` is the number of poles since the last combinator; the new number
is part of the result. -/
def fill (site : Site) (p : Placement) (run : Nat) : Except LayoutFault (Placement × Nat) := do
  let p ← settle site (roundLimit site) p.expire
  match p.schedule.find? fun s => s.slot = p.slots.size with
  | some s =>
    let placed ← placePole site p s.pole
    -- The pole is placed before the run is checked: an uncolored wire on it is reported first.
    if runLimit site < run + 1 then throw (.tooComplex (run + 1) p.slots.size)
    else return (placed, run + 1)
  | none => return (← placeCombinator site p, 0)

/-! ### Progress -/

theorem bind_eq_ok {α β : Type} {x : Except LayoutFault α} {f : α → Except LayoutFault β} {b : β} :
    (x >>= f) = .ok b ↔ ∃ a, x = .ok a ∧ f a = .ok b := by
  cases x with
  | error e => simp [bind, Except.bind]
  | ok a => simp [bind, Except.bind]

/-- Relaying a wire places no combinator. -/
theorem next_relay {site : Site} {round : Nat} {p q : Placement} {e : Endangered}
    (h : relay site round p e = .ok q) : q.next = p.next := by
  obtain ⟨color, -, h⟩ := bind_eq_ok.1 h
  split at h
  · cases h; rfl
  · split at h
    · cases h; rfl
    · cases h

theorem next_relayEach {site : Site} {round : Nat} {p q : Placement} {es : List Endangered}
    (h : relayEach site round p es = .ok q) : q.next = p.next := by
  induction es generalizing p with
  | nil => cases h; rfl
  | cons e es ih =>
    obtain ⟨mid, h₁, h₂⟩ := bind_eq_ok.1 h
    rw [ih h₂, next_relay h₁]

theorem next_settle {site : Site} {left : Nat} {p q : Placement}
    (h : settle site left p = .ok q) : q.next = p.next := by
  induction left generalizing p with
  | zero =>
    rw [settle] at h
    split at h
    · cases h; rfl
    · cases h
  | succ left ih =>
    rw [settle] at h
    split at h
    · cases h; rfl
    · obtain ⟨mid, h₁, h₂⟩ := bind_eq_ok.1 h
      rw [ih h₂, next_relayEach h₁]

theorem next_connect {site : Site} {slot : Nat} {p q : Placement} {wire : String}
    {contact : Contact} (h : connect site slot p wire contact = .ok q) : q.next = p.next := by
  obtain ⟨segments, -, h⟩ := bind_eq_ok.1 h
  cases h
  rfl

theorem next_connectEach {site : Site} {slot : Nat} {p q : Placement}
    {cs : List (String × Contact)} (h : connectEach site slot p cs = .ok q) : q.next = p.next := by
  induction cs generalizing p with
  | nil => cases h; rfl
  | cons c cs ih =>
    obtain ⟨mid, h₁, h₂⟩ := bind_eq_ok.1 h
    rw [ih h₂, next_connect h₁]

/-- A filled slot holds either one more pole of a run, or the next combinator. -/
theorem next_fill {site : Site} {p q : Placement} {run run' : Nat}
    (h : fill site p run = .ok (q, run')) :
    q.next = p.next ∧ run' = run + 1 ∧ run + 1 ≤ runLimit site ∨
      q.next = p.next + 1 ∧ run' = 0 := by
  obtain ⟨mid, h₁, h⟩ := bind_eq_ok.1 h
  have hmid : mid.next = p.next := (next_settle h₁).trans rfl
  split at h
  · obtain ⟨placed, h₂, h⟩ := bind_eq_ok.1 h
    split at h
    · cases h
    · next hrun =>
      cases h
      refine .inl ⟨?_, rfl, Nat.le_of_not_lt hrun⟩
      rw [placePole] at h₂
      rw [next_connectEach h₂]
      exact hmid
  · obtain ⟨placed, h₂, h⟩ := bind_eq_ok.1 h
    cases h
    refine .inr ⟨?_, rfl⟩
    rw [placeCombinator] at h₂
    rw [next_connectEach h₂]
    exact congrArg (· + 1) hmid

/-- A bound on the number of slots that are still to be filled: each combinator is followed by a
run of poles at most. -/
def remaining (site : Site) (p : Placement) (run : Nat) : Nat :=
  (site.connections.size - p.next) * (runLimit site + 2) + (runLimit site + 1 - run)

theorem remaining_fill {site : Site} {p q : Placement} {run run' : Nat}
    (hp : p.next < site.connections.size) (h : fill site p run = .ok (q, run')) :
    remaining site q run' < remaining site p run := by
  rcases next_fill h with ⟨hq, rfl, hrun⟩ | ⟨hq, rfl⟩
  · rw [remaining, remaining, hq]
    omega
  · rw [remaining, remaining, hq]
    obtain ⟨k, hk⟩ := Nat.exists_eq_add_of_lt hp
    have h₁ : site.connections.size - p.next = k + 1 := by omega
    have h₂ : site.connections.size - (p.next + 1) = k := by omega
    rw [h₁, h₂, Nat.add_mul]
    omega

/-- Fill slots until every combinator is placed. -/
def complete (site : Site) (p : Placement) (run : Nat) : Except LayoutFault Placement :=
  if _hp : p.next < site.connections.size then
    match _h : fill site p run with
    | .error e => .error e
    | .ok (q, run') => complete site q run'
  else .ok p
termination_by remaining site p run
decreasing_by exact remaining_fill _hp _h

theorem complete_of_fill {site : Site} {p q : Placement} {run run' : Nat}
    (hp : p.next < site.connections.size) (h : fill site p run = .ok (q, run')) :
    complete site p run = complete site q run' := by
  rw [complete, dif_pos hp, h]

theorem complete_of_fill_eq_error {site : Site} {p : Placement} {run : Nat} {fault : LayoutFault}
    (hp : p.next < site.connections.size) (h : fill site p run = .error fault) :
    complete site p run = .error fault := by
  rw [complete, dif_pos hp, h]

/-- The layout that a finished placement describes. -/
def toLayout (site : Site) (p : Placement) : Layout where
  cliqueSize := site.width
  colors := site.colors
  slots := p.slots
  positions := p.positions
  poles := p.poles
  segments := p.segments

end Placement

/-- The site of some combinators under some settings. -/
def Site.ofConnections (settings : LayoutSettings) (connections : List (List Connection))
    (colors : NameMap Color) : Site where
  width := max settings.cliqueSize 2
  window := max settings.recentPoles 1
  connections := connections.toArray
  colors := colors

/-- The layout of a site in a release build. -/
def Site.layout (site : Site) : Except LayoutFault Layout := do
  return (← Placement.complete site (.initial site) 0).toLayout site

theorem Site.layout_eq_map (site : Site) :
    site.layout = (Placement.complete site (.initial site) 0).map (·.toLayout site) := by
  rw [layout]
  cases Placement.complete site (.initial site) 0 <;> rfl

/-- The layout of a site in a build with overflow checks. The cube of the width is computed first,
also if there is nothing to be placed. -/
def Site.layoutChecked (site : Site) : Checked LayoutFault Layout := .ifFits site.Fits site.layout

theorem Site.Fits.run_layoutChecked {site : Site} (h : site.Fits) :
    site.layoutChecked.run = some site.layout := if_pos h

theorem Site.run_layoutChecked_eq_none {site : Site} (h : ¬ site.Fits) :
    site.layoutChecked.run = none := if_neg h

end CombinatorNet
