import CombinatorNet.Layout.Placement
import Mathlib.Order.Basic

/-!
# The contacts of a wire

A wire is wound off its queue while the pass fills slots. At first the queue holds the contacts of
the wire in the order of the combinators, and placing several contacts takes them off the queues of
their wires one after the other.

## Main definitions

* `Site.contacts`, `Site.contactsFrom` — the contacts of a wire on all combinators, or from one on
* `contactsOf` — the contacts of a wire among those placed into one slot

## Main results

* `Placement.queue_initial` — what the queues hold at first
* `Placement.connectEach_induction` — an invariant of placing one contact after the other
* `Placement.queue_connectEach`, `Placement.connectEach_frame` — what that does to the queues, and
  what it leaves alone
-/

namespace CombinatorNet

/-- The contacts of a wire on one combinator. -/
def contactsIn (wire : String) (id : Nat) (connections : List Connection) : List Contact :=
  (connections.filter fun c => c.wire = wire).map fun c => .combinator id c.side

/-- The contacts of a wire among those that are placed into one slot. -/
def contactsOf (wire : String) (placed : List (String × Contact)) : List Contact :=
  (placed.filter fun e => e.1 = wire).map (·.2)

namespace Site

/-- The contacts of a wire on the combinators from a given one on. -/
def contactsFrom (site : Site) (wire : String) (first : Nat) : List Contact :=
  ((site.connections.toList.drop first).zipIdx first).flatMap fun e => contactsIn wire e.2 e.1

/-- The contacts of a wire, in the order of the combinators and of their connections. -/
def contacts (site : Site) (wire : String) : List Contact := site.contactsFrom wire 0

variable {site : Site} {wire : String} {first id : Nat}

theorem contactsFrom_next (h : first < site.connections.size) :
    site.contactsFrom wire first =
      contactsIn wire first (site.connections.getD first []) ++
        site.contactsFrom wire (first + 1) := by
  -- The connections from `first` on are those of the combinator and those behind it.
  have hlen : first < site.connections.toList.length := by simpa using h
  simp only [contactsFrom, List.drop_eq_getElem_cons hlen, List.zipIdx_cons, List.flatMap_cons]
  simp [Array.getD, h]

theorem contactsFrom_of_le (h : site.connections.size ≤ first) :
    site.contactsFrom wire first = [] := by
  have hlen : site.connections.toList.length ≤ first := by simpa using h
  simp [contactsFrom, List.drop_eq_nil_of_le hlen]

/-- Contacts ahead are at combinators ahead. -/
theorem exists_of_mem_contactsFrom {contact : Contact}
    (h : contact ∈ site.contactsFrom wire first) :
    ∃ id side, contact = .combinator id side ∧ first ≤ id := by
  obtain ⟨⟨connections, id⟩, hmem, hin⟩ := List.mem_flatMap.mp h
  obtain ⟨c, -, rfl⟩ := List.mem_map.mp hin
  exact ⟨id, c.side, rfl, (List.mem_zipIdx hmem).1⟩

theorem le_of_contactsFrom_eq_cons {side : Side} {rest : List Contact}
    (h : site.contactsFrom wire first = .combinator id side :: rest) : first ≤ id := by
  obtain ⟨id', side', heq, hid⟩ := exists_of_mem_contactsFrom (h ▸ List.mem_cons_self)
  obtain ⟨rfl, -⟩ := Contact.combinator.inj heq
  exact hid

theorem pole_notMem_contactsFrom {i : Nat} : .pole i ∉ site.contactsFrom wire first := by
  intro h
  obtain ⟨id, side, heq, -⟩ := exists_of_mem_contactsFrom h
  cases heq

/-- The contacts are given by the combinators they are on. -/
theorem contacts_eq : site.contacts wire =
    site.connections.toList.zipIdx.flatMap fun e => contactsIn wire e.2 e.1 := rfl

end Site

@[simp] theorem contactsOf_nil (wire : String) : contactsOf wire [] = [] := rfl

theorem contactsOf_cons (wire wire' : String) (contact : Contact) (rest : List (String × Contact)) :
    contactsOf wire ((wire', contact) :: rest) =
      if wire' = wire then contact :: contactsOf wire rest else contactsOf wire rest := by
  by_cases h : wire' = wire <;> simp [contactsOf, h]

theorem contactsOf_combinator (wire : String) (id : Nat) (connections : List Connection) :
    contactsOf wire (connections.map fun c => (c.wire, .combinator id c.side)) =
      contactsIn wire id connections := by
  simp [contactsOf, contactsIn, List.filter_map, Function.comp_def]

/-- One contact of several wires is one of each of them. -/
theorem contactsOf_map {wires : List String} (hnodup : wires.Nodup) (wire : String)
    (contact : Contact) :
    contactsOf wire (wires.map fun w => (w, contact)) = if wire ∈ wires then [contact] else [] := by
  induction wires with
  | nil => simp
  | cons w rest ih =>
    rw [List.nodup_cons] at hnodup
    rw [List.map_cons, contactsOf_cons, ih hnodup.2]
    -- A wire that is met at the head is not met again, as it is listed once.
    by_cases hw : w = wire
    · subst hw
      simp [hnodup.1]
    · have hw' : wire ≠ w := fun h => hw h.symm
      simp [hw, hw']

namespace Placement

variable {site : Site} {slot : Nat} {p q : Placement} {wire : String}

/-! ### The first queues -/

private theorem getD_foldl_connections (id : Nat) (connections : List Connection)
    (queues : NameMap (List Contact)) (wire : String) :
    ((connections.foldl (fun queues c =>
      queues.insert c.wire ((queues.get? c.wire).getD [] ++ [.combinator id c.side])) queues).get?
        wire).getD [] = (queues.get? wire).getD [] ++ contactsIn wire id connections := by
  induction connections generalizing queues with
  | nil => simp [contactsIn]
  | cons c rest ih =>
    rw [List.foldl_cons, ih, NameMap.get?_insert]
    -- The contact goes to the end of the queue of its wire, behind those of earlier combinators.
    by_cases h : c.wire = wire
    · subst h
      simp [contactsIn]
    · have h' : wire ≠ c.wire := fun heq => h heq.symm
      simp [contactsIn, h, h']

/-- At first the queue of a wire holds all its contacts. -/
theorem queue_initial (site : Site) (wire : String) :
    (initial site).queue wire = site.contacts wire := by
  -- From any queues on, a combinator after the other adds its contacts behind what is there.
  have hfold : ∀ (es : List (List Connection × Nat)) (queues : NameMap (List Contact)),
      ((es.foldl (fun queues e => e.1.foldl (fun queues c =>
        queues.insert c.wire ((queues.get? c.wire).getD [] ++ [.combinator e.2 c.side])) queues)
          queues).get? wire).getD [] =
        (queues.get? wire).getD [] ++ es.flatMap fun e => contactsIn wire e.2 e.1 := by
    intro es
    induction es with
    | nil => simp
    | cons e rest ih =>
      intro queues
      rw [List.foldl_cons, ih, getD_foldl_connections, List.flatMap_cons, List.append_assoc]
  rw [Site.contacts_eq]
  exact hfold _ _

/-! ### Placing contacts -/

theorem queue_connect {contact : Contact} (h : connect site slot p wire contact = .ok q)
    (wire' : String) :
    q.queue wire' = if wire' = wire then (p.queue wire).tail else p.queue wire' := by
  obtain ⟨segments, -, h⟩ := bind_eq_ok.mp h
  cases h
  simp only [queue, NameMap.get?_insert]
  split <;> rfl

theorem openEnds_connect {contact : Contact} (h : connect site slot p wire contact = .ok q)
    (wire' : String) :
    q.openEnds.get? wire' =
      if wire' = wire then
        if (p.queue wire).tail = [] then none else some ⟨contact, slot⟩
      else p.openEnds.get? wire' := by
  obtain ⟨segments, -, h⟩ := bind_eq_ok.mp h
  cases h
  by_cases htail : (p.queue wire).tail = []
  · simp [htail, NameMap.get?_erase]
  · simp [htail, NameMap.get?_insert]

theorem connect_frame {contact : Contact} (h : connect site slot p wire contact = .ok q) :
    ∃ queues openEnds segments, q = { p with queues, openEnds, segments } := by
  obtain ⟨segments, -, h⟩ := bind_eq_ok.mp h
  cases h
  exact ⟨_, _, _, rfl⟩

/-- What placing one contact keeps, with the contacts that are left, placing all of them keeps. -/
theorem connectEach_induction {I : List (String × Contact) → Placement → Prop}
    {placed : List (String × Contact)} (h : connectEach site slot p placed = .ok q)
    (hp : I placed p)
    (hstep : ∀ wire contact rest p q, I ((wire, contact) :: rest) p →
      connect site slot p wire contact = .ok q → I rest q) : I [] q := by
  induction placed generalizing p with
  | nil => cases h; exact hp
  | cons e rest ih =>
    obtain ⟨mid, h₁, h₂⟩ := bind_eq_ok.mp h
    exact ih h₂ (hstep _ _ _ _ _ hp h₁)

theorem connectEach_frame {placed : List (String × Contact)}
    (h : connectEach site slot p placed = .ok q) :
    ∃ queues openEnds segments, q = { p with queues, openEnds, segments } := by
  refine connectEach_induction h
    (I := fun _ r => ∃ queues openEnds segments, r = { p with queues, openEnds, segments })
    ⟨_, _, _, rfl⟩ ?_
  rintro wire contact rest _ q ⟨queues, openEnds, segments, rfl⟩ hq
  obtain ⟨queues', openEnds', segments', rfl⟩ := connect_frame hq
  exact ⟨_, _, _, rfl⟩

/-- The contacts placed leave the front of the queue of their wire. -/
theorem queue_connectEach {placed : List (String × Contact)}
    (h : connectEach site slot p placed = .ok q) (wire : String) :
    q.queue wire = (p.queue wire).drop (contactsOf wire placed).length := by
  -- What is left of the queue when the contacts still to be placed are gone stays the same.
  have hend := connectEach_induction h
    (I := fun rest r => (r.queue wire).drop (contactsOf wire rest).length =
      (p.queue wire).drop (contactsOf wire placed).length) rfl ?_
  · simpa using hend
  intro wire' contact rest p' q' hp hq
  rw [← hp, queue_connect hq, contactsOf_cons]
  by_cases hw : wire = wire'
  · subst hw
    simp [List.drop_tail]
  · have hw' : wire' ≠ wire := fun heq => hw heq.symm
    simp [hw, hw']

/-- A wire without a contact to be placed keeps its end. -/
theorem openEnds_connectEach {placed : List (String × Contact)}
    (h : connectEach site slot p placed = .ok q) (hwire : contactsOf wire placed = []) :
    q.openEnds.get? wire = p.openEnds.get? wire := by
  have hend := connectEach_induction h
    (I := fun rest r => contactsOf wire rest = [] ∧ r.openEnds.get? wire = p.openEnds.get? wire)
    ⟨hwire, rfl⟩ ?_
  · exact hend.2
  rintro wire' contact rest p' q' ⟨hrest, hp⟩ hq
  rw [contactsOf_cons] at hrest
  split at hrest
  · cases hrest
  · next hne =>
    refine ⟨hrest, ?_⟩
    rw [openEnds_connect hq, if_neg (fun heq => hne heq.symm), hp]

end Placement

end CombinatorNet
