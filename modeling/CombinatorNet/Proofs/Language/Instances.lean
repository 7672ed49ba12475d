import CombinatorNet.Language.Flatten

/-!
# The instances of a program

Flattening visits the statements of the entry, and at each instance the statements of the template
it puts in place. An instance is known by the way to it, that is by the numbers of the statements
that lead there from the entry. A wire name in an instance stands for a variable: where the name is
a parameter that the instance binds, that of the name passed by the caller, and otherwise a variable
of the instance itself. The flattened program has the visited statements in this order, with one
name for each variable.

## Main definitions

* `Frame` — an instance with its callers, with `Frame.path` for the way to it
* `Frame.resolve` — the variable that a wire name stands for
* `Program.Invariant` — what holds of all scopes, and of the statements in them
* `Program.visits`, `Program.origins` — the statements visited, and those that are kept
* `labelFrom` — the instances with their numbers

## Main results

* `Program.Invariant.flatten` — what holds of all statements of a flattened program
* `Program.flatten_eq_origins` — flattening keeps the origins, each variable under its name
-/

namespace CombinatorNet

/-- A wire of one instance, known by the way to the instance. -/
@[ext]
structure Variable where
  path : List Nat
  name : String
deriving DecidableEq, Repr

/-- An instance of a template: the entry, or what a statement of another instance puts in place. -/
inductive Frame
  | entry
  | inner (caller : Frame) (index : Nat) (bindings : List Binding)

namespace Frame

/-- The numbers of the statements that lead to an instance. -/
def path : Frame → List Nat
  | entry => []
  | inner caller index _ => caller.path ++ [index]

/-- The variable that a wire name stands for. While the name is bound by the instance, the name that
is passed stands for the same in the caller. -/
def resolve : Frame → String → Variable
  | entry, name => ⟨[], name⟩
  | inner caller index bindings, name =>
    match bindings.find? fun b => b.formal = name with
    | some b => caller.resolve b.actual
    | none => ⟨caller.path ++ [index], name⟩

/-- The signal that a signal name stands for. Only parameters are not signals of the whole. -/
def signal : Frame → String → String
  | entry, name => name
  | inner caller _ bindings, name =>
    if isReserved name then name
    else
      match bindings.find? fun b => b.formal = name with
      | some b => caller.signal b.actual
      | none => name

end Frame

/-! ### Visits -/

/-- A statement of an instance. -/
structure Visit where
  frame : Frame
  /-- The number of the statement in the body. -/
  index : Nat
  statement : Statement

/-- What a visit of an instance statement puts in place: the way to the instance, and the name of
its template. -/
def Visit.opens? (v : Visit) : Option (List Nat × String) :=
  match v.statement.request with
  | .instantiate name _ => some (v.frame.path ++ [v.index], name)
  | _ => none

/-- The instances that are put in place by some visits. -/
def openedBy (visits : List Visit) : List (List Nat × String) := visits.filterMap Visit.opens?

/-- Visit the statements of a body from a number on, and the instances among them in a given way. -/
def visitBody (enter : Frame → String → List Visit) (frame : Frame) :
    Nat → List Statement → List Visit
  | _, [] => []
  | i, s :: rest =>
    match s.request with
    | .instantiate name bindings =>
      ⟨frame, i, s⟩ :: (enter (.inner frame i bindings) name ++ visitBody enter frame (i + 1) rest)
    | _ => ⟨frame, i, s⟩ :: visitBody enter frame (i + 1) rest

namespace Program

/-- Visit an instance of a template where `room` more levels of instances are allowed. -/
def visitInstance (p : Program) : Nat → Frame → String → List Visit
  | 0, _, _ => []
  | room + 1, frame, name =>
    match p.find? name with
    | none => []
    | some t => visitBody (p.visitInstance room) frame 0 t.body

/-- The statements visited from the entry on. -/
def visits (p : Program) (limit : Nat) : List Visit :=
  match p.entryPoint? with
  | none => []
  | some entry => visitBody (p.visitInstance limit) .entry 0 entry.body

/-- The statements visited, without those that put instances in place. -/
def origins (p : Program) (limit : Nat) : List Visit :=
  (p.visits limit).filter fun v => v.opens?.isNone

end Program

/-! ### Numbers -/

/-- Instances in the order in which they are met, each with its template and its number, given how
many instances each template has had before. -/
def labelFrom (counts : InstanceCounts) :
    List (List Nat × String) → List (List Nat × String × Nat)
  | [] => []
  | (path, name) :: rest =>
    let n := (counts.get? name).getD 0 + 1
    (path, name, n) :: labelFrom (counts.insert name n) rest

/-- How many instances each template has had after some more. -/
def countFrom (counts : InstanceCounts) : List (List Nat × String) → InstanceCounts
  | [] => counts
  | (_, name) :: rest => countFrom (counts.insert name ((counts.get? name).getD 0 + 1)) rest

theorem labelFrom_append (counts : InstanceCounts) (xs ys : List (List Nat × String)) :
    labelFrom counts (xs ++ ys) = labelFrom counts xs ++ labelFrom (countFrom counts xs) ys := by
  induction xs generalizing counts with
  | nil => rfl
  | cons x xs ih =>
    rw [List.cons_append, labelFrom, labelFrom, countFrom, ih]
    rfl

theorem countFrom_append (counts : InstanceCounts) (xs ys : List (List Nat × String)) :
    countFrom counts (xs ++ ys) = countFrom (countFrom counts xs) ys := by
  induction xs generalizing counts with
  | nil => rfl
  | cons x xs ih => exact ih _

/-- The name of a wire in the instance of a template with a number. -/
def qualified (template : String) (n : Nat) (name : String) : String :=
  template ++ "." ++ toString n ++ "." ++ name

/-! ### Names for variables -/

/-- An operand with its signal renamed. -/
def Operand.mapSignal (signal : String → String) : Operand → Operand
  | .signal name => .signal (signal name)
  | .literal v => .literal v

/-- A request with its wires and signals renamed. -/
def Request.rename (wire signal : String → String) : Request → Request
  | constant drive values outputs =>
    constant drive (values.map fun e => (signal e.1, e.2)) (outputs.map wire)
  | binary inputs e outputs =>
    binary (inputs.map wire) { e with
      left := e.left.mapSignal signal
      right := e.right.mapSignal signal
      output := signal e.output }
      (outputs.map wire)
  | display inputs name => display (inputs.map wire) (signal name)
  | instantiate name bindings => instantiate name bindings
  | paint color wires => paint color (wires.map wire)
  | label text level => label text level

/-- The visited statement, with a name for each variable. -/
def Visit.named (ν : Variable → String) (v : Visit) : Statement :=
  ⟨v.statement.request.rename (fun name => ν (v.frame.resolve name)) v.frame.signal,
    v.statement.span⟩

/-- The names are those of the instances. -/
def Names (ν : Variable → String) (labels : List (List Nat × String × Nat)) : Prop :=
  ∀ l ∈ labels, ∀ name, ν ⟨l.1, name⟩ = qualified l.2.1 l.2.2 name

/-- The names in a scope stand for what they stand for in an instance. -/
structure Scope.Fits (s : Scope) (ν : Variable → String) (frame : Frame) : Prop where
  wire : ∀ name, s.wire name = ν (frame.resolve name)
  signal : ∀ name, s.signal name = frame.signal name

theorem Scope.Fits.request {s : Scope} {ν : Variable → String} {frame : Frame} (h : s.Fits ν frame)
    (r : Request) : s.request r = r.rename (fun name => ν (frame.resolve name)) frame.signal := by
  -- A scope and a renaming act on the wires and the operands of a request in the same places.
  have hwires : ∀ names : List String,
      names.map s.wire = names.map fun name => ν (frame.resolve name) :=
    fun names => List.map_congr_left fun name _ => h.wire name
  have hoperand : ∀ o, s.operand o = o.mapSignal frame.signal := by
    rintro (name | v)
    · exact congrArg _ (h.signal name)
    · rfl
  cases r <;> simp only [Scope.request, Scope.expr, Request.rename, hwires, hoperand, h.signal]

/-- Binding leaves each parameter with what is passed for it, and nothing else. -/
theorem Template.get?_bind {t : Template} {caller : Scope} {bindings : List Binding}
    {bound bound' : NameMap Bound} (h : t.bind caller bindings bound = .ok bound') (name : String) :
    bound'.get? name = ((bound.get? name).or
      ((bindings.find? fun b => b.formal = name).map fun b =>
        ⟨caller.wire b.actual, caller.signal b.actual⟩)) := by
  -- By induction on the bindings, with the parameters bound so far.
  induction bindings generalizing bound with
  | nil =>
    cases h
    simp
  | cons b rest ih =>
    rw [Template.bind] at h
    split at h
    · cases h
    · split at h
      · cases h
      · next hnew =>
        -- The parameter was not bound before, so this binding is the first one for it.
        rw [ih h, NameMap.get?_insert]
        have hnone : bound.get? b.formal = none := by
          simpa [NameMap.contains] using hnew
        by_cases hname : name = b.formal
        · subst hname
          simp [hnone]
        · have hname' : ¬ b.formal = name := fun heq => hname heq.symm
          simp [hname, hname']

/-! ### Flattening -/

variable {ν : Variable → String} {enter : Instantiation} {visit : Frame → String → List Visit}
  {scope : Scope} {frame : Frame} {counts counts' : InstanceCounts} {out : List Statement}

/-- Flattening yields the statements of the visits, with names for the variables, and counts the
instances that they open. -/
def Flattens (ν : Variable → String) (counts : InstanceCounts) (visits : List Visit)
    (result : List Statement × InstanceCounts) : Prop :=
  result.1 = (visits.filter fun v => v.opens?.isNone).map (Visit.named ν) ∧
    result.2 = countFrom counts (openedBy visits)

/-- A way to put an instance in place goes the same way as a way to visit it, given names for the
variables of the instances on the way. -/
def Follows (ν : Variable → String) (enter : Instantiation) (visit : Frame → String → List Visit) :
    Prop :=
  ∀ {s : Statement} {name bindings scope frame index counts out counts'},
    s.request = .instantiate name bindings →
    enter name bindings s.span scope counts = .ok (out, counts') → scope.Fits ν frame →
    Names ν (labelFrom counts
      (openedBy (⟨frame, index, s⟩ :: visit (.inner frame index bindings) name))) →
    Flattens ν counts (⟨frame, index, s⟩ :: visit (.inner frame index bindings) name) (out, counts')

/-- The statement does not put an instance in place. -/
def Statement.Stays (s : Statement) : Prop :=
  ∀ name bindings, s.request ≠ .instantiate name bindings

theorem Statement.opens_or_stays (s : Statement) :
    (∃ name bindings, s.request = .instantiate name bindings) ∨ s.Stays := by
  by_cases hs : ∃ name bindings, s.request = .instantiate name bindings
  · exact .inl hs
  · exact .inr fun name bindings heq => hs ⟨name, bindings, heq⟩

theorem opens?_of_opens {s : Statement} {name : String} {bindings : List Binding}
    (hs : s.request = .instantiate name bindings) (frame : Frame) (i : Nat) :
    Visit.opens? ⟨frame, i, s⟩ = some (frame.path ++ [i], name) := by
  rw [Visit.opens?, hs]

theorem opens?_of_stays {s : Statement} (hs : s.Stays) (frame : Frame) (i : Nat) :
    Visit.opens? ⟨frame, i, s⟩ = none := by
  rw [Visit.opens?]
  split
  · next hr => exact absurd hr (hs _ _)
  · rfl

theorem visitBody_cons_of_opens {s : Statement} {name : String} {bindings : List Binding}
    (hs : s.request = .instantiate name bindings) (i : Nat) (rest : List Statement) :
    visitBody visit frame i (s :: rest) = ⟨frame, i, s⟩ ::
      (visit (.inner frame i bindings) name ++ visitBody visit frame (i + 1) rest) := by
  rw [visitBody, hs]

theorem visitBody_cons_of_stays {s : Statement} (hs : s.Stays) (i : Nat)
    (rest : List Statement) :
    visitBody visit frame i (s :: rest) = ⟨frame, i, s⟩ :: visitBody visit frame (i + 1) rest := by
  rw [visitBody]
  split
  · next hr => exact absurd hr (hs _ _)
  · rfl

/-- A chain of steps succeeds if each of them does. -/
private theorem bind_ok_iff {α β : Type} {x : Except NetworkError α} {f : α → Except NetworkError β}
    {b : β} : (x >>= f) = .ok b ↔ ∃ a, x = .ok a ∧ f a = .ok b := by
  cases x with
  | error e => simp [bind, Except.bind]
  | ok a => simp [bind, Except.bind]

/-- Flattening a list of statements that starts with one that stays. -/
theorem flattenBody_cons_of_stays {s : Statement} (hs : s.Stays) {rest : List Statement}
    (h : flattenBody enter scope (s :: rest) counts = .ok (out, counts')) :
    ∃ others, flattenBody enter scope rest counts = .ok (others, counts') ∧
      out = ⟨scope.request s.request, s.span⟩ :: others := by
  rw [flattenBody] at h
  split at h
  · next hr => exact absurd hr (hs _ _)
  · obtain ⟨⟨others, counts''⟩, hrest, h⟩ := bind_ok_iff.mp h
    cases h
    exact ⟨others, hrest, rfl⟩

/-- Flattening a list of statements that starts with an instance. -/
theorem flattenBody_cons_of_opens {s : Statement} {name : String} {bindings : List Binding}
    (hs : s.request = .instantiate name bindings) {rest : List Statement}
    (h : flattenBody enter scope (s :: rest) counts = .ok (out, counts')) :
    ∃ inner mid others, enter name bindings s.span scope counts = .ok (inner, mid) ∧
      flattenBody enter scope rest mid = .ok (others, counts') ∧ out = inner ++ others := by
  simp only [flattenBody, hs] at h
  obtain ⟨⟨inner, mid⟩, henter, h⟩ := bind_ok_iff.mp h
  obtain ⟨⟨others, counts''⟩, hrest, h⟩ := bind_ok_iff.mp h
  cases h
  exact ⟨inner, mid, others, henter, hrest, rfl⟩

/-- An instance is the body of its template, in the scope of its bindings and under its number. -/
theorem flattenBody_of_instantiate {p : Program} {limit room : Nat} {name : String}
    {bindings : List Binding} {span : Span}
    (h : p.instantiate limit (room + 1) name bindings span scope counts = .ok (out, counts')) :
    ∃ t bound, p.find? name = some t ∧ t.bind scope bindings ∅ = .ok bound ∧
      flattenBody (p.instantiate limit room)
        ⟨some (name ++ "." ++ toString ((counts.get? name).getD 0 + 1)), bound⟩ t.body
        (counts.insert name ((counts.get? name).getD 0 + 1)) = .ok (out, counts') := by
  rw [Program.instantiate] at h
  split at h
  · cases h
  · next t ht =>
    obtain ⟨bound, hbind, h⟩ := bind_ok_iff.mp h
    exact ⟨t, bound, ht, hbind, h⟩

theorem Program.mem_of_entryPoint? {p : Program} {t : Template} (h : p.entryPoint? = some t) :
    t ∈ p.templates := by
  rw [entryPoint?] at h
  split at h
  · next ht =>
    cases h
    exact List.mem_of_find?_eq_some ht
  · exact List.mem_of_head? h

section Induction

variable {p : Program} {Q : Scope → Prop} {P : Statement → Prop}

/-- What holds of the statements that a scope makes of those that stay, and scopes pass on to
instances, holds of all statements of a flattened body. -/
theorem forall_mem_flattenBody {body : List Statement}
    (hkeep : ∀ s ∈ body, s.Stays → P ⟨scope.request s.request, s.span⟩)
    (henter : ∀ s ∈ body, ∀ name bindings, s.request = .instantiate name bindings →
      ∀ span counts result, enter name bindings span scope counts = .ok result →
        ∀ x ∈ result.1, P x)
    (h : flattenBody enter scope body counts = .ok (out, counts')) : ∀ x ∈ out, P x := by
  induction body generalizing counts out with
  | nil =>
    cases h
    exact List.forall_mem_nil _
  | cons s rest ih =>
    rw [List.forall_mem_cons] at hkeep henter
    obtain ⟨name, bindings, hs⟩ | hs := s.opens_or_stays
    · obtain ⟨inner, mid, others, hinner, hrest, rfl⟩ := flattenBody_cons_of_opens hs h
      exact List.forall_mem_append.mpr
        ⟨henter.1 name bindings hs _ _ _ hinner, ih hkeep.2 henter.2 hrest⟩
    · obtain ⟨others, hrest, rfl⟩ := flattenBody_cons_of_stays hs h
      exact List.forall_mem_cons.mpr ⟨hkeep.1 hs, ih hkeep.2 henter.2 hrest⟩

/-- An invariant of the scopes of a program, with what it makes of statements. -/
structure Program.Invariant (p : Program) (Q : Scope → Prop) (P : Statement → Prop) : Prop where
  root : Q .root
  inner : ∀ t ∈ p.templates, ∀ s ∈ t.body, ∀ name bindings,
    s.request = .instantiate name bindings → ∀ caller, Q caller → ∀ (callee : Template) bound,
      callee.bind caller bindings ∅ = .ok bound → ∀ owner, Q ⟨some owner, bound⟩
  keep : ∀ t ∈ p.templates, ∀ s ∈ t.body, s.Stays → ∀ scope, Q scope →
    P ⟨scope.request s.request, s.span⟩

theorem Program.Invariant.instantiate (hp : p.Invariant Q P) (limit room : Nat) {t : Template}
    (ht : t ∈ p.templates) {s : Statement} (hs : s ∈ t.body) {name : String}
    {bindings : List Binding} (hr : s.request = .instantiate name bindings) (hscope : Q scope)
    {span : Span} {result : List Statement × InstanceCounts}
    (h : p.instantiate limit room name bindings span scope counts = .ok result) :
    ∀ x ∈ result.1, P x := by
  induction room generalizing t s name bindings scope span counts result with
  | zero =>
    rw [Program.instantiate] at h
    split at h <;> cases h
  | succ room ih =>
    obtain ⟨callee, bound, hfind, hbind, hbody⟩ := flattenBody_of_instantiate h
    have hcallee := List.mem_of_find?_eq_some hfind
    have hinner := hp.inner t ht s hs name bindings hr scope hscope callee bound hbind
    exact forall_mem_flattenBody
      (fun s' hs' hstays => hp.keep callee hcallee s' hs' hstays _ (hinner _))
      (fun s' hs' name' bindings' hr' _ _ _ hresult => ih hcallee hs' hr' (hinner _) hresult) hbody

/-- What an invariant makes of statements holds of all statements of the flattened program. -/
theorem Program.Invariant.flatten (hp : p.Invariant Q P) {limit : Nat}
    (h : p.flatten limit = .ok out) : ∀ x ∈ out, P x := by
  rw [Program.flatten] at h
  split at h
  · cases h
  · next entry hentry =>
    have hentry' := Program.mem_of_entryPoint? hentry
    cases hbody : flattenBody (p.instantiate limit limit) .root entry.body ∅ with
    | error e =>
      rw [hbody] at h
      cases h
    | ok result =>
      rw [hbody] at h
      cases h
      exact forall_mem_flattenBody (fun s hs hstays => hp.keep entry hentry' s hs hstays _ hp.root)
        (fun s hs name bindings hr _ _ _ hresult =>
          hp.instantiate limit limit hentry' hs hr hp.root hresult) hbody

end Induction

/-- A flattened program has no instances. -/
theorem Program.stays_of_flatten {p : Program} {limit : Nat} (h : p.flatten limit = .ok out) :
    ∀ s ∈ out, s.Stays := by
  have hp : p.Invariant (fun _ => True) Statement.Stays := by
    refine ⟨trivial, fun _ _ _ _ _ _ _ _ _ _ _ _ _ => trivial, fun t _ s _ hs scope _ => ?_⟩
    -- A scope renames what a request asks for, and keeps its kind.
    intro name bindings heq
    cases hr : s.request <;> rw [hr] at heq <;> cases heq
    exact hs _ _ hr
  exact hp.flatten h

/-- What the bindings make of the parameters fits the instance, if its own wires have its name. -/
theorem Scope.Fits.inner {name : String} {bindings : List Binding} {index n : Nat} {t : Template}
    {bound : NameMap Bound} (h : scope.Fits ν frame) (hbind : t.bind scope bindings ∅ = .ok bound)
    (hown : ∀ wire, ν ⟨frame.path ++ [index], wire⟩ = qualified name n wire) :
    Scope.Fits ⟨some (name ++ "." ++ toString n), bound⟩ ν (.inner frame index bindings) := by
  have hget := Template.get?_bind hbind
  simp only [NameMap.get?_empty, Option.none_or] at hget
  constructor
  · intro wire
    rw [Scope.wire, Frame.resolve, hget]
    cases bindings.find? fun b => b.formal = wire with
    | some b => exact h.wire b.actual
    | none =>
      -- A wire that is not bound is one of the instance itself.
      exact (hown wire).symm
  · intro signal
    rw [Scope.signal, Frame.signal, hget]
    split
    · rfl
    · cases bindings.find? fun b => b.formal = signal with
      | some b => exact h.signal b.actual
      | none => rfl

theorem Flattens.append {xs ys : List Visit} {mid : InstanceCounts} {inner others : List Statement}
    (hx : Flattens ν counts xs (inner, mid)) (hy : Flattens ν mid ys (others, counts')) :
    Flattens ν counts (xs ++ ys) (inner ++ others, counts') := by
  obtain ⟨hinner, hmid⟩ := hx
  obtain ⟨hothers, hcounts⟩ := hy
  simp only at hinner hmid hothers hcounts
  refine ⟨?_, ?_⟩
  · rw [List.filter_append, List.map_append, hinner, hothers]
  · rw [openedBy, List.filterMap_append, countFrom_append, hcounts, hmid]
    rfl

/-- A body is flattened as it is visited, if its instances are. -/
theorem Follows.flattenBody (h : Follows ν enter visit) (hscope : scope.Fits ν frame)
    {body : List Statement} {i : Nat}
    (hbody : flattenBody enter scope body counts = .ok (out, counts'))
    (hnames : Names ν (labelFrom counts (openedBy (visitBody visit frame i body)))) :
    Flattens ν counts (visitBody visit frame i body) (out, counts') := by
  -- By induction on the body, with the counts that the statements before leave.
  induction body generalizing i counts out with
  | nil =>
    cases hbody
    exact ⟨rfl, rfl⟩
  | cons s rest ih =>
    obtain ⟨name, bindings, hs⟩ | hs := s.opens_or_stays
    · obtain ⟨inner, mid, others, henter, hrest, rfl⟩ := flattenBody_cons_of_opens hs hbody
      rw [visitBody_cons_of_opens hs, ← List.cons_append] at hnames ⊢
      rw [openedBy, List.filterMap_append, labelFrom_append] at hnames
      have hinner := h hs henter hscope fun l hl => hnames l (List.mem_append_left _ hl)
      -- The later statements are numbered from the counts that the instance leaves.
      refine hinner.append (ih hrest fun l hl => hnames l (List.mem_append_right _ ?_))
      have hmid : mid = _ := hinner.2
      rwa [hmid] at hl
    · obtain ⟨others, hrest, rfl⟩ := flattenBody_cons_of_stays hs hbody
      -- A statement that stays opens no instance and counts none.
      have hopens := opens?_of_stays hs frame i
      rw [visitBody_cons_of_stays hs] at hnames ⊢
      rw [openedBy, List.filterMap_cons_none hopens] at hnames
      obtain ⟨hothers, hcounts⟩ := ih hrest hnames
      refine ⟨?_, ?_⟩
      · rw [List.filter_cons_of_pos (by rw [hopens]; rfl), List.map_cons, ← hothers, Visit.named,
          hscope.request]
      · rw [openedBy, List.filterMap_cons_none hopens]
        exact hcounts

/-- Instances are put in place as they are visited. -/
theorem Program.follows_instantiate (p : Program) (ν : Variable → String) (limit room : Nat) :
    Follows ν (p.instantiate limit room) (p.visitInstance room) := by
  induction room with
  | zero =>
    intro s name bindings scope frame index counts out counts' _ h
    rw [instantiate] at h
    split at h <;> cases h
  | succ room ih =>
    intro s name bindings scope frame index counts out counts' hs h hscope hnames
    obtain ⟨t, bound, ht, hbind, hbody⟩ := flattenBody_of_instantiate h
    have hopens := opens?_of_opens hs frame index
    have hvisits : p.visitInstance (room + 1) (.inner frame index bindings) name =
        visitBody (p.visitInstance room) (.inner frame index bindings) 0 t.body := by
      rw [visitInstance, ht]
    rw [hvisits] at hnames ⊢
    rw [openedBy, List.filterMap_cons_some hopens, labelFrom] at hnames
    -- The first label is that of the instance itself, and gives its own wires their names.
    have hfits := hscope.inner hbind (hnames _ List.mem_cons_self)
    obtain ⟨hout, hcounts⟩ :=
      ih.flattenBody hfits hbody fun l hl => hnames l (List.mem_cons_of_mem _ hl)
    refine ⟨?_, ?_⟩
    · rw [hout, List.filter_cons_of_neg (by simp [hopens])]
    · rw [openedBy, List.filterMap_cons_some hopens, countFrom]
      exact hcounts

/-- Flattening keeps the origins, with a name for each variable, if the variables of instances have
the names of the instances and those of the entry their own. -/
theorem Program.flatten_eq_origins {p : Program} {limit : Nat}
    (h : p.flatten limit = .ok out) (hentry : ∀ name, ν ⟨[], name⟩ = name)
    (hnames : Names ν (labelFrom ∅ (openedBy (p.visits limit)))) :
    out = (p.origins limit).map (Visit.named ν) := by
  cases hentry' : p.entryPoint? with
  | none =>
    simp only [flatten, hentry'] at h
    cases h
  | some entry =>
    simp only [flatten, hentry'] at h
    -- The entry is flattened in the root scope, in which every name stands for itself.
    have hvisits : p.visits limit = visitBody (p.visitInstance limit) .entry 0 entry.body := by
      simp only [visits, hentry']
    rw [hvisits] at hnames
    rw [origins, hvisits]
    have hroot : Scope.root.Fits ν .entry :=
      ⟨fun name => (hentry name).symm, fun name => Scope.signal_root name⟩
    cases hbody : flattenBody (p.instantiate limit limit) .root entry.body ∅ with
    | error e =>
      rw [hbody] at h
      cases h
    | ok result =>
      obtain ⟨out', counts⟩ := result
      rw [hbody] at h
      cases h
      exact (Follows.flattenBody (p.follows_instantiate ν limit limit) hroot hbody hnames).1

end CombinatorNet
