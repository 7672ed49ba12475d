import CombinatorNet.Proofs.Language.Names
import CombinatorNet.Proofs.Language.Nesting
import Mathlib.Data.List.Nodup
import Mathlib.Data.Set.Function

/-!
# Renaming parameters

The names of a template are its own: renaming a parameter in the template, and in the bindings of
all its instances, leaves the flattened program as it is. What an instance makes of a name is either
what is passed for it, and then the name itself is gone, or has the name in it, and then the name
must stay. So only parameters that all instances bind can be renamed, and the new name must not be
captured by another one of the template.

Any number of templates may be renamed at once, each in its own way.

## Main definitions

* `Request.used` — the names that a request takes from its template
* `Program.renameParams`, `Program.renameParam` — rename parameters, or one of them
* `Program.Renamable` — the names that are given make no difference
* `Scope.Agrees` — two scopes make the same of a name and of the name given for it

## Main results

* `Template.exists_bind_renamed` — renamed bindings are accepted, and their scopes agree
* `Program.instantiate_renameParams` — a renamed instance is put in place as before
* `Program.flatten_renameParam` — renaming a parameter leaves the flattened program as it is
-/

namespace CombinatorNet

/-! ### Renaming -/

/-- The names that a request takes from its template: those of wires and signals, and those that it
passes to an instance. -/
def Request.used : Request → List String
  | instantiate _ bindings => bindings.map Binding.actual
  | r => r.names

/-- The names that mean something in a template: its parameters, and those that its body uses. -/
def Template.scopeNames (t : Template) : Set String :=
  {n | n ∈ t.params ∨ ∃ s ∈ t.body, n ∈ s.request.used}

/-- A binding with its parameter and the name that is passed renamed. -/
def Binding.rename (formal actual : String → String) (b : Binding) : Binding :=
  { b with formal := formal b.formal, actual := actual b.actual }

section Renaming

variable (ρ : String → String → String)

/-- A request of a template with its names renamed, each parameter of an instance in the way in
which the template of the instance is renamed. -/
def Request.renameParams (template : String) : Request → Request
  | instantiate name bindings =>
    instantiate name (bindings.map (Binding.rename (ρ name) (ρ template)))
  | r => r.rename (ρ template) (ρ template)

/-- A statement of a template with its names renamed. -/
def Statement.renameParams (template : String) (s : Statement) : Statement :=
  { s with request := s.request.renameParams ρ template }

/-- A template with its parameters and the names in its body renamed. -/
def Template.renameParams (t : Template) : Template :=
  { t with
    params := t.params.map (ρ t.name)
    body := t.body.map (Statement.renameParams ρ t.name) }

/-- A program in which the names of each template are renamed in a way of their own. -/
def Program.renameParams (p : Program) : Program := ⟨p.templates.map (Template.renameParams ρ)⟩

end Renaming

/-- The new name in place of the old one. -/
def renamed (old new name : String) : String := if name = old then new else name

/-- A program with a parameter of a template renamed: among the parameters, in the body, and in all
bindings of instances of the template. -/
def Program.renameParam (p : Program) (template old new : String) : Program :=
  p.renameParams fun name => if name = template then renamed old new else id

/-- If the request is for an instance of a template, it binds a parameter. -/
def Request.Binds (template param : String) : Request → Prop
  | instantiate name bindings => name = template → ∃ b ∈ bindings, b.formal = param
  | _ => True

instance (template param : String) : (r : Request) → Decidable (r.Binds template param)
  | .instantiate name bindings =>
    inferInstanceAs (Decidable (name = template → ∃ b ∈ bindings, b.formal = param))
  | .constant .. | .binary .. | .display .. | .paint .. | .label .. => .isTrue trivial

/-- All instances of a template in the program bind a parameter. -/
def Program.AlwaysBinds (p : Program) (template param : String) : Prop :=
  ∀ t ∈ p.templates, ∀ s ∈ t.body, s.request.Binds template param

instance (p : Program) (template param : String) : Decidable (p.AlwaysBinds template param) :=
  inferInstanceAs (Decidable (∀ t ∈ p.templates, ∀ s ∈ t.body, s.request.Binds template param))

theorem Program.AlwaysBinds.exists_mem {p : Program} {t : Template} {s : Statement}
    {name param : String} {bindings : List Binding} (h : p.AlwaysBinds name param)
    (ht : t ∈ p.templates) (hs : s ∈ t.body) (hr : s.request = .instantiate name bindings) :
    ∃ b ∈ bindings, b.formal = param := by
  have hbinds := h t ht s hs
  rw [hr] at hbinds
  exact hbinds rfl

/-- Names are renamed so that it makes no difference: none in the entry, and in other templates
those only that all instances bind, apart from the reserved ones, and no two to the same name. -/
structure Program.Renamable (p : Program) (ρ : String → String → String) : Prop where
  entry : ∀ t, p.entryPoint? = some t → ∀ n, ρ t.name n = n
  injOn : ∀ name t, p.find? name = some t → Set.InjOn (ρ name) t.scopeNames
  bound : ∀ name n, ρ name n ≠ n → p.AlwaysBinds name n
  reserved : ∀ name n, ρ name n ≠ n → isReserved n = false ∧ isReserved (ρ name n) = false

variable {p : Program} {ρ : String → String → String} {t : Template} {caller caller' : Scope}
  {bindings : List Binding} {body : List Statement} {enter enter' : Instantiation}
  {counts : InstanceCounts} {name template : String} {result : List Statement × InstanceCounts}

theorem Program.find?_renameParams :
    (p.renameParams ρ).find? name = (p.find? name).map (Template.renameParams ρ) := by
  rw [find?, renameParams, List.find?_map]
  rfl

theorem Program.entryPoint?_renameParams :
    (p.renameParams ρ).entryPoint? = p.entryPoint?.map (Template.renameParams ρ) := by
  rw [entryPoint?, entryPoint?, find?_renameParams]
  cases p.find? mainName with
  | some t => rfl
  | none => exact List.head?_map

/-- The entry is the first template with its name. -/
theorem Program.find?_of_entryPoint? (h : p.entryPoint? = some t) : p.find? t.name = some t := by
  rw [entryPoint?] at h
  split at h
  · next t' hmain =>
    cases h
    have hname : t.name = mainName := by simpa using List.find?_some hmain
    rw [hname, hmain]
  · obtain ⟨rest, htemplates⟩ := List.head?_eq_some_iff.mp h
    rw [find?, htemplates, List.find?_cons_of_pos (by simp)]

/-! ### Scopes that agree -/

/-- The second scope makes of the name that is given for a name what the first one makes of the name
itself. -/
structure Scope.Agrees (s s' : Scope) (name given : String) : Prop where
  wire : s'.wire given = s.wire name
  signal : s'.signal given = s.signal name

theorem Scope.Agrees.refl (s : Scope) (name : String) : s.Agrees s name name := ⟨rfl, rfl⟩

/-- Where scopes agree on the operands, they make the same of them. -/
theorem Scope.operand_mapSignal {f : String → String} {o : Operand}
    (h : ∀ n ∈ o.names, caller.Agrees caller' n (f n)) :
    caller'.operand (o.mapSignal f) = caller.operand o := by
  cases o with
  | signal n => exact congrArg _ (h n (List.mem_singleton.mpr rfl)).signal
  | literal v => rfl

theorem Scope.map_wire {f : String → String} {wires : List String}
    (h : ∀ n ∈ wires, caller.Agrees caller' n (f n)) :
    (wires.map f).map caller'.wire = wires.map caller.wire := by
  rw [List.map_map]
  exact List.map_congr_left fun n hn => (h n hn).wire

/-- Where scopes agree on the names that a request uses, they make the same of the request. -/
theorem Scope.request_renameParams {r : Request}
    (hstays : ∀ name bindings, r ≠ .instantiate name bindings)
    (h : ∀ n ∈ r.used, caller.Agrees caller' n (ρ template n)) :
    caller'.request (r.renameParams ρ template) = caller.request r := by
  cases r with
  | constant drive values outputs =>
    simp only [Request.used, Request.names, List.forall_mem_append, List.forall_mem_map] at h
    have hvalues : (values.map fun e => (ρ template e.1, e.2)).map
        (fun e => (caller'.signal e.1, e.2)) = values.map fun e => (caller.signal e.1, e.2) := by
      rw [List.map_map]
      exact List.map_congr_left fun e he => congrArg (·, e.2) (h.1 e he).signal
    simp only [Request.renameParams, Request.rename, request, hvalues, map_wire h.2]
  | binary inputs e outputs =>
    simp only [Request.used, Request.names, Expr.names, List.forall_mem_append,
      List.forall_mem_singleton] at h
    obtain ⟨⟨hinputs, ⟨hleft, hright⟩, houtput⟩, houtputs⟩ := h
    simp only [Request.renameParams, Request.rename, request, expr, map_wire hinputs,
      map_wire houtputs, operand_mapSignal hleft, operand_mapSignal hright, houtput.signal]
  | display inputs signal =>
    simp only [Request.used, Request.names, List.forall_mem_append, List.forall_mem_singleton] at h
    simp only [Request.renameParams, Request.rename, request, map_wire h.1, h.2.signal]
  | instantiate name bindings => exact absurd rfl (hstays name bindings)
  | paint color wires =>
    have hwires : ∀ n ∈ wires, caller.Agrees caller' n (ρ template n) := h
    simp only [Request.renameParams, Request.rename, request, map_wire hwires]
  | label text level => rfl

/-! ### Bindings -/

/-- A name that is bound in two scopes to the same means the same in them, unless it is reserved in
one of them only. -/
theorem Scope.agrees_of_bound {s s' : Scope} {given : String} {b : Bound}
    (h : s.bindings.get? name = some b) (h' : s'.bindings.get? given = some b)
    (hreserved : given = name ∨ isReserved name = false ∧ isReserved given = false) :
    s.Agrees s' name given := by
  constructor
  · rw [wire, wire, h, h']
  · rw [signal, signal, h, h']
    obtain rfl | ⟨hname, hgiven⟩ := hreserved
    · rfl
    · rw [hname, hgiven]
      rfl

/-- What renamed bindings pass for a renamed parameter is what they passed for it before. -/
theorem find?_map_rename {formal actual : String → String}
    (hinj : ∀ b ∈ bindings, formal b.formal = formal name → b.formal = name) :
    ((bindings.map (Binding.rename formal actual)).find? fun b => b.formal = formal name) =
      (bindings.find? fun b => b.formal = name).map (Binding.rename formal actual) := by
  rw [List.find?_map]
  congr 1
  induction bindings with
  | nil => rfl
  | cons b rest ih =>
    obtain ⟨hb, hrest⟩ := List.forall_mem_cons.mp hinj
    have hiff : formal b.formal = formal name ↔ b.formal = name := ⟨hb, congrArg formal⟩
    rw [List.find?_cons, List.find?_cons, ih hrest]
    simp [Binding.rename, hiff]

/-- A renamed template takes renamed bindings, as no two parameters become one. -/
theorem Template.Accepts.rename (h : t.Accepts bindings)
    (hinj : Set.InjOn (ρ t.name) t.scopeNames) (actual : String → String) :
    (t.renameParams ρ).Accepts (bindings.map (Binding.rename (ρ t.name) actual)) := by
  have hformals : (bindings.map (Binding.rename (ρ t.name) actual)).map Binding.formal =
      (bindings.map Binding.formal).map (ρ t.name) := by
    rw [List.map_map, List.map_map]
    rfl
  constructor
  · rw [List.forall_mem_map]
    exact fun b hb => List.mem_map_of_mem (h.declared b hb)
  · rw [hformals]
    refine h.nodup.map_on fun m hm n hn heq => ?_
    rw [List.mem_map] at hm hn
    obtain ⟨b, hb, rfl⟩ := hm
    obtain ⟨b', hb', rfl⟩ := hn
    exact hinj (.inl (h.declared b hb)) (.inl (h.declared b' hb')) heq

/-- Renamed bindings are accepted if they were before, and the scopes that they make agree on the
names of the template, if those of the callers agree on the names that are passed. -/
theorem Template.exists_bind_renamed (hp : p.Renamable ρ) (ht : p.find? t.name = some t)
    {bound : NameMap Bound} (hbind : t.bind caller bindings ∅ = .ok bound)
    (halways : ∀ n, ρ t.name n ≠ n → ∃ b ∈ bindings, b.formal = n)
    (hcaller : ∀ b ∈ bindings, caller.Agrees caller' b.actual (ρ template b.actual))
    (owner : String) :
    ∃ bound', (t.renameParams ρ).bind caller'
        (bindings.map (Binding.rename (ρ t.name) (ρ template))) ∅ = .ok bound' ∧
      ∀ n ∈ t.scopeNames, Scope.Agrees ⟨some owner, bound⟩ ⟨some owner, bound'⟩ n (ρ t.name n) := by
  have hinj := hp.injOn t.name t ht
  have haccepts := (exists_bind_iff.mp ⟨bound, hbind⟩).1
  obtain ⟨bound', hbind'⟩ := exists_bind_iff.mpr
    ⟨haccepts.rename hinj (ρ template), fun _ _ => NameMap.get?_empty _⟩
  refine ⟨bound', hbind', fun n hn => ?_⟩
  have hget := get?_bind hbind n
  have hget' := get?_bind hbind' (ρ t.name n)
  rw [find?_map_rename fun b hb heq => hinj (.inl (haccepts.declared b hb)) hn heq] at hget'
  rw [NameMap.get?_empty, Option.none_or] at hget hget'
  cases hfind : bindings.find? fun b => b.formal = n with
  | some b =>
    -- The name is bound, and stands for what is passed.
    obtain ⟨hwire, hsignal⟩ := hcaller b (List.mem_of_find?_eq_some hfind)
    rw [hfind, Option.map_some] at hget hget'
    rw [Binding.rename, Option.map_some, hwire, hsignal] at hget'
    exact Scope.agrees_of_bound hget hget' (or_iff_not_imp_left.mpr (hp.reserved t.name n))
  | none =>
    -- The name is not bound, so it is given for itself.
    have hkept : ρ t.name n = n := by
      by_contra hmoved
      obtain ⟨b, hb, hformal⟩ := halways n hmoved
      exact List.find?_eq_none.mp hfind b hb (by simpa using hformal)
    rw [hfind, Option.map_none] at hget
    rw [hfind, Option.map_none, Option.map_none, hkept] at hget'
    rw [hkept]
    constructor
    · rw [Scope.wire, Scope.wire, hget, hget']
    · rw [Scope.signal, Scope.signal, hget, hget']

/-! ### Flattening -/

theorem Statement.request_renameParams_of_opens {s : Statement}
    (hs : s.request = .instantiate name bindings) :
    (s.renameParams ρ template).request =
      .instantiate name (bindings.map (Binding.rename (ρ name) (ρ template))) := by
  rw [renameParams, hs, Request.renameParams]

theorem Statement.Stays.renameParams {s : Statement} (hs : s.Stays) :
    (s.renameParams ρ template).Stays := by
  intro name bindings heq
  -- Renaming keeps the kind of a request.
  rw [Statement.renameParams] at heq
  cases hr : s.request <;> rw [hr] at heq <;> cases heq
  exact hs _ _ hr

/-- A renamed body is flattened as before in scopes that agree on the names it uses, if its
instances are. -/
theorem flattenBody_renameParams
    (henter : ∀ s ∈ body, ∀ name bindings, s.request = .instantiate name bindings →
      ∀ counts result, enter name bindings s.span caller counts = .ok result →
        enter' name (bindings.map (Binding.rename (ρ name) (ρ template))) s.span caller' counts =
          .ok result)
    (hagrees : ∀ s ∈ body, ∀ n ∈ s.request.used, caller.Agrees caller' n (ρ template n))
    (h : flattenBody enter caller body counts = .ok result) :
    flattenBody enter' caller' (body.map (Statement.renameParams ρ template)) counts =
      .ok result := by
  induction body generalizing counts result with
  | nil => exact h
  | cons s rest ih =>
    rw [List.forall_mem_cons] at henter hagrees
    rw [List.map_cons]
    obtain ⟨out, counts'⟩ := result
    obtain ⟨name, bindings, hs⟩ | hs := s.opens_or_stays
    · obtain ⟨inner, mid, others, hinner, hrest, rfl⟩ := flattenBody_cons_of_opens hs h
      have hinner' := henter.1 name bindings hs _ _ hinner
      have hrest' := ih henter.2 hagrees.2 hrest
      rw [flattenBody_cons_eq_of_opens (Statement.request_renameParams_of_opens hs)]
      exact (congrArg (· >>= _) hinner').trans (congrArg (Except.map _) hrest')
    · obtain ⟨others, hrest, rfl⟩ := flattenBody_cons_of_stays hs h
      have hrest' := ih henter.2 hagrees.2 hrest
      rw [flattenBody_cons_eq_of_stays hs.renameParams, hrest',
        ← Scope.request_renameParams hs hagrees.1]
      rfl

/-- A renamed instance is put in place as before, if the scopes of the callers agree on the names
that are passed. -/
theorem Program.instantiate_renameParams (hp : p.Renamable ρ) {limit room : Nat} {span : Span}
    (halways : ∀ n, ρ name n ≠ n → ∃ b ∈ bindings, b.formal = n)
    (hcaller : ∀ b ∈ bindings, caller.Agrees caller' b.actual (ρ template b.actual))
    (h : p.instantiate limit room name bindings span caller counts = .ok result) :
    (p.renameParams ρ).instantiate limit room name
      (bindings.map (Binding.rename (ρ name) (ρ template))) span caller' counts = .ok result := by
  induction room generalizing name bindings span caller caller' counts result template with
  | zero =>
    rw [instantiate] at h
    split at h <;> cases h
  | succ room ih =>
    obtain ⟨t, bound, ht, hbind, hbody⟩ := flattenBody_of_instantiate h
    obtain rfl : t.name = name := by simpa using List.find?_some ht
    have ht' : (p.renameParams ρ).find? t.name = some (t.renameParams ρ) := by
      rw [find?_renameParams, ht, Option.map_some]
    obtain ⟨bound', hbind', hagrees⟩ :=
      Template.exists_bind_renamed hp ht hbind halways hcaller
        (t.name ++ "." ++ toString ((counts.get? t.name).getD 0 + 1))
    have hmem := List.mem_of_find?_eq_some ht
    rw [instantiate_succ_eq ht', hbind']
    refine flattenBody_renameParams (fun s hs name bindings hr counts result h => ?_)
      (fun s hs n hn => hagrees n (.inr ⟨s, hs, hn⟩)) hbody
    refine ih (fun n hmoved => (hp.bound name n hmoved).exists_mem hmem hs hr) (fun b hb => ?_) h
    refine hagrees b.actual (.inr ⟨s, hs, ?_⟩)
    rw [hr]
    exact List.mem_map_of_mem hb

/-- Names that make no difference can be renamed without a change to the flattened program. -/
theorem Program.flatten_renameParams (hp : p.Renamable ρ) {limit : Nat} {out : List Statement}
    (h : p.flatten limit = .ok out) : (p.renameParams ρ).flatten limit = .ok out := by
  cases hentry : p.entryPoint? with
  | none =>
    simp only [flatten, hentry] at h
    cases h
  | some entry =>
    simp only [flatten, hentry] at h
    have hentry' : (p.renameParams ρ).entryPoint? = some (entry.renameParams ρ) := by
      rw [entryPoint?_renameParams, hentry, Option.map_some]
    simp only [flatten, hentry']
    cases hbody : flattenBody (p.instantiate limit limit) .root entry.body ∅ with
    | error e =>
      rw [hbody] at h
      cases h
    | ok result =>
      rw [hbody] at h
      have hkept := hp.entry entry hentry
      have hmem := mem_of_entryPoint? hentry
      -- The names of the entry stay, and stand for themselves.
      have hroot : ∀ n, Scope.root.Agrees .root n (ρ entry.name n) := fun n =>
        (hkept n).symm ▸ .refl _ _
      have hbody' : flattenBody ((p.renameParams ρ).instantiate limit limit) .root
          (entry.renameParams ρ).body ∅ = .ok result :=
        flattenBody_renameParams (fun s hs name bindings hr counts result h' =>
            instantiate_renameParams hp
              (fun n hmoved => (hp.bound name n hmoved).exists_mem hmem hs hr)
              (fun b _ => hroot b.actual) h')
          (fun s _ n _ => hroot n) hbody
      exact (congrArg (Except.map _) hbody').trans h

/-! ### One parameter -/

theorem renamed_self (old new : String) : renamed old new old = new := if_pos rfl

theorem renamed_of_ne {old : String} (h : name ≠ old) (new : String) :
    renamed old new name = name := if_neg h

/-- Only to the new name itself can two names become one. -/
theorem injOn_renamed {old new : String} {names : Set String} (hnew : new ∉ names) :
    Set.InjOn (renamed old new) names := by
  intro m hm n hn heq
  by_cases hmo : m = old
  · by_cases hno : n = old
    · rw [hmo, hno]
    · rw [hmo, renamed_self, renamed_of_ne hno] at heq
      exact absurd (heq ▸ hn) hnew
  · by_cases hno : n = old
    · rw [hno, renamed_self, renamed_of_ne hmo] at heq
      exact absurd (heq ▸ hm) hnew
    · rwa [renamed_of_ne hmo, renamed_of_ne hno] at heq

/-- A parameter that all instances bind may get a name that the template does not use. -/
theorem Program.renamable_renamed (ht : p.find? t.name = some t) (hentry : p.entryPoint? ≠ some t)
    {old new : String} (hbound : p.AlwaysBinds t.name old) (hnew : new ∉ t.scopeNames)
    (hreserved : isReserved old = false ∧ isReserved new = false) :
    p.Renamable fun name => if name = t.name then renamed old new else id := by
  -- Only the old name is renamed, and only in the template.
  have hmoved : ∀ name n, (if name = t.name then renamed old new else id) n ≠ n →
      name = t.name ∧ n = old := by
    intro name n hne
    split at hne
    · next hname => exact ⟨hname, not_not.mp fun hn => hne (renamed_of_ne hn new)⟩
    · exact absurd rfl hne
  refine ⟨fun u hu n => ?_, fun name u hu => ?_, fun name n hne => ?_, fun name n hne => ?_⟩
  · by_contra hne
    have hfound := find?_of_entryPoint? hu
    rw [(hmoved u.name n hne).1, ht] at hfound
    cases hfound
    exact hentry hu
  · split
    · next hname =>
      rw [hname, ht] at hu
      cases hu
      exact injOn_renamed hnew
    · exact Set.injOn_id _
  · obtain ⟨rfl, rfl⟩ := hmoved name n hne
    exact hbound
  · obtain ⟨rfl, rfl⟩ := hmoved name n hne
    rwa [if_pos rfl, renamed_self]

/-- Let a program be flattened within some limit, and take a template other than the entry, a
parameter that all its instances in the program bind, and a name that is neither a parameter nor a
wire, a signal or a name passed in the template, neither of the two being reserved. With the
parameter renamed to that name, in the template and in all bindings of its instances, the flattened
program is the same. -/
theorem Program.flatten_renameParam {limit : Nat} {out : List Statement}
    (hok : p.flatten limit = .ok out) (ht : p.find? template = some t)
    (hentry : p.entryPoint? ≠ some t) {param new : String}
    (hbound : p.AlwaysBinds template param) (hparam : new ∉ t.params)
    (hused : ∀ s ∈ t.body, new ∉ s.request.used)
    (hreserved : isReserved param = false ∧ isReserved new = false) :
    (p.renameParam template param new).flatten limit = .ok out := by
  obtain rfl : t.name = template := by simpa using List.find?_some ht
  have hnew : new ∉ t.scopeNames := fun hmem =>
    hmem.elim hparam fun ⟨s, hs, hn⟩ => hused s hs hn
  exact flatten_renameParams (renamable_renamed ht hentry hbound hnew hreserved) hok

namespace Program

/-- An instance of `Outer`, whose parameter is called `param`. Its caller passes `Y` for it, and
`Inner` has a parameter `A`. -/
def nested (param : String) : Program where
  templates :=
    [⟨"Main", [], [⟨.constant .constant [("A", 1)] ["Y"], .nowhere⟩,
        ⟨.instantiate "Outer" [⟨param, "Y", .nowhere⟩], .nowhere⟩], .nowhere⟩,
      ⟨"Outer", [param], [⟨.constant .toggle [(param, 2), ("B", 3)] ["W"], .nowhere⟩,
        ⟨.instantiate "Inner" [⟨"A", param, .nowhere⟩, ⟨"B", "W", .nowhere⟩], .nowhere⟩,
        ⟨.binary ["W", param] ⟨.signal param, .mul, .signal "B", param, false, .nowhere⟩ [param],
          .nowhere⟩], .nowhere⟩,
      ⟨"Inner", ["A", "B"], [⟨.display ["A", "B"] "A", .nowhere⟩], .nowhere⟩]

/-- A parameter gets the name that the caller passes for it, and a parameter of another template
with the old name stays. -/
theorem flatten_renameParam_nested :
    ∃ out, (nested "A").flatten 2 = .ok out ∧ out.length = 4 ∧
      (nested "A").renameParam "Outer" "A" "Y" = nested "Y" ∧ (nested "Y").flatten 2 = .ok out := by
  have hout : ∃ out, (nested "A").flatten 2 = .ok out ∧ out.length = 4 := ⟨_, rfl, rfl⟩
  have hrename : (nested "A").renameParam "Outer" "A" "Y" = nested "Y" := by decide
  obtain ⟨out, hflatten, hlength⟩ := hout
  refine ⟨out, hflatten, hlength, hrename, hrename ▸ ?_⟩
  exact flatten_renameParam (t := (nested "A").templates[1]) hflatten (by decide) (by decide)
    (by decide) (by decide) (by decide) (by decide)

end Program

end CombinatorNet
