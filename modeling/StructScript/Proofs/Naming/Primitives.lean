import StructScript.Proofs.Evaluation.Admission
import StructScript.Proofs.Naming.Regime

/-!
# What a type check lets through

Type checks compare names: that of a parameter, of a field, or of the value that a variable holds,
with that of the new value (`Moment.Accepts`). The name of a struct is the one that its type was
defined under, and no name is reserved, so a program may define a type `int` and then give a variable
that holds a number a struct of that type (`Session.int_redefined`). This is the only way: what a
check lets through is of the kind that the name says, unless some text defines a type of that very
name (`Session.accepts_kind`). The types that texts define are the names of a naming
(`Session.definitions`), so this is what its regime says of the values at a moment.
-/

namespace StructScript

/-- The declared type of the field at the end of a path, in the struct that has the field. -/
def Value.declaredAt? : List Ast.Ident → Value → Option TypeName
  | [field], .struct record => record.fieldTypes.find? field.name
  | field :: next :: rest, .struct record =>
    declaredAt? (next :: rest) ((NameMap.find? record.fields field.name).getD .nil)
  | _, _ => none

/-- What replaces a field is of the declared type. -/
theorem Value.exists_declaredAt?_of_setPath {v : Value} (path : List Ast.Ident)
    {target new : Value} (hpath : path ≠ []) (h : target.setPath path v = .ok new) :
    ∃ declared, declaredAt? path target = some declared ∧ v.typeName = declared.name := by
  induction path generalizing target new with
  | nil => exact absurd rfl hpath
  | cons field rest ih =>
      unfold setPath at h
      split at h
      · rename_i record
        split at h
        · -- the last step: the declared type is checked
          split at h
          · cases h
          · rename_i declared hdeclared
            split at h
            · rename_i htype
              exact ⟨declared, by rw [declaredAt?, hdeclared], htype⟩
            · cases h
        · rename_i next rest
          split at h
          · cases h
          · rename_i inner hinner
            rw [declaredAt?]
            exact ih (List.cons_ne_nil _ _) hinner
      · cases h

namespace Moment

/-- A check against the name lets the value through at the moment: as the argument for a parameter,
for a field of a struct literal, for a field that is set, or as the new value of a variable. -/
inductive Accepts (strict : Bool) : Moment → String → Value → Prop where
  | argument {n name f args span m param v}
      (hpair : (param, v) ∈ f.definition.params.zip args)
      (htype : v.typeName = param.type.name.name) :
      Accepts strict ⟨n, .call name f args span, m⟩ param.type.name.name v
  | initialiser {n scope typeName declared given name value span rest m m' type v}
      (hfield : NameMap.find? declared name.name = some type)
      (hvalue : Ast.Expr.eval (.upTo strict n) scope value m = some (.ok v, m'))
      (htype : v.typeName = type.name) :
      Accepts strict ⟨n, .inits scope typeName declared given (⟨name, value, span⟩ :: rest), m⟩
        type.name v
  | field {n scope target e span m m' v current type}
      (hvalue : Ast.Expr.eval (.upTo strict n) scope e m = some (.ok v, m'))
      (hcurrent : m'.store.lookupVariable scope target.root.name = some current)
      (hfield : current.declaredAt? target.path = some type) (htype : v.typeName = type.name) :
      Accepts strict ⟨n, .stmt scope (.assign target e span), m⟩ type.name v
  | root {n scope target e span m m' v binder old new}
      (hvalue : Ast.Expr.eval (.upTo strict n) scope e m = some (.ok v, m'))
      (hbinder : m'.store.binder? scope target.root.name = some (binder, old))
      (hnew : old.setPath target.path v = .ok new) (htype : old.typeName = new.typeName) :
      Accepts strict ⟨n, .stmt scope (.assign target e span), m⟩ old.typeName new

variable {strict : Bool} {n : Nat} {m : Machine}

/-- What a call binds has been let through. -/
theorem accepts_of_checkArguments {name : String} {f : Closure} {args : List Value} (span : Span)
    {bindings : List (String × Value)} (h : f.checkArguments name args = .ok bindings) :
    bindings = (f.definition.params.zip args).map (fun pair => (pair.1.name.name, pair.2)) ∧
      ∀ pair ∈ f.definition.params.zip args,
        Accepts strict ⟨n, .call name f args span, m⟩ pair.1.type.name.name pair.2 := by
  obtain ⟨hbindings, htypes⟩ := Closure.eq_of_checkArguments h
  exact ⟨hbindings, fun pair hpair => .argument hpair (htypes pair hpair)⟩

/-- What the first field of a struct literal takes has been let through, and the others go on from
there. -/
theorem accepts_of_evalInits {scope : ScopeId} {typeName : String} {declared : NameMap TypeName}
    {given fields : NameMap Value} {init : Ast.FieldInit} {rest : List Ast.FieldInit} {m' : Machine}
    (h : Ast.Node.evalInits (.upTo strict n) scope typeName declared given (init :: rest) m =
      some (.ok fields, m')) :
    ∃ (type : TypeName) (v : Value) (m₁ : Machine),
      NameMap.find? declared init.name.name = some type ∧
      init.value.eval (.upTo strict n) scope m = some (.ok v, m₁) ∧
      Accepts strict ⟨n, .inits scope typeName declared given (init :: rest), m⟩ type.name v ∧
      Ast.Node.evalInits (.upTo strict n) scope typeName declared
        (NameMap.insert init.name.name v given) rest m₁ = some (.ok fields, m') := by
  obtain ⟨name, value, span⟩ := init
  unfold Ast.Node.evalInits at h
  rcases hfield : NameMap.find? declared name.name with _ | type
  · rw [hfield] at h
    cases h
  · rw [hfield] at h
    rcases Bounded.cases_of_bind h with ⟨e, -, herror⟩ | ⟨v, m₁, hvalue, hrest⟩
    · cases herror
    · split at hrest
      · rename_i htype
        exact ⟨type, v, m₁, rfl, hvalue, .initialiser hfield hvalue htype, hrest⟩
      · cases hrest

/-- What is assigned has been let through, for the field as well if there is one. -/
theorem accepts_of_assignPlace {scope : ScopeId} {target : Ast.Place} {e : Ast.Expr}
    (span : Span) {m' : Machine} {v : Value} {t : Store}
    (hvalue : e.eval (.upTo strict n) scope m = some (.ok v, m'))
    (h : m'.store.assignPlace scope target v = .ok t) :
    (∃ binder old new, m'.store.binder? scope target.root.name = some (binder, old) ∧
      t = m'.store.defineVariable binder target.root.name new ∧ old.typeName = new.typeName ∧
      Accepts strict ⟨n, .stmt scope (.assign target e span), m⟩ old.typeName new) ∧
    (target.path ≠ [] → ∃ type : TypeName, v.typeName = type.name ∧
      Accepts strict ⟨n, .stmt scope (.assign target e span), m⟩ type.name v) := by
  obtain ⟨binder, old, new, hbinder, hset, htype, ht⟩ := Store.exists_of_assignPlace h
  refine ⟨⟨binder, old, new, hbinder, ht, htype, .root hvalue hbinder hset htype⟩, ?_⟩
  intro hpath
  obtain ⟨type, hfield, hname⟩ := Value.exists_declaredAt?_of_setPath _ hpath hset
  have hlookup : m'.store.lookupVariable scope target.root.name = some old := by
    rw [Store.lookupVariable_eq, hbinder, Option.map_some]
  exact ⟨type, hname, .field hvalue hlookup hfield hname⟩

end Moment

/-- A value that a check lets through respects a naming that the moment respects, and it goes by the
name of the check. -/
theorem Moment.Accepts.ofValue {strict : Bool} {N : Naming} {x : Moment} {name : String} {v : Value}
    (h : x.Accepts strict name v) (hx : (N.regime strict).Admits x) :
    N.OfValue v ∧ v.typeName = name := by
  cases h with
  | argument hpair htype => exact ⟨hx.2.2 _ (List.of_mem_zip hpair).2, htype⟩
  | @initialiser n scope _ _ _ name value span rest m m' type v hfield hvalue htype =>
      obtain ⟨hstore, hscope, -, -, hcode⟩ := hx
      have hinit := hcode _ List.mem_cons_self
      have hkeeps := Regime.keeps_eval ((N.regime strict).keptBy_call n) hscope value
        (hinit.child (.initValue ⟨name, value, span⟩))
      exact ⟨(hkeeps m _ m' hstore hvalue).2 v rfl, htype⟩
  | field hvalue _ _ htype => exact ⟨(hx.assigned hvalue).2, htype⟩
  | root hvalue hbinder hnew htype =>
      obtain ⟨hstore, hv⟩ := hx.assigned hvalue
      have hold := Naming.OfStore.binder? hstore hbinder
      exact ⟨(Regime.value_setPath hv _ hold hnew).1, htype.symm⟩

namespace Session

/-- The text defines a type of this name, in some statement of the text or in a function. -/
def Defines (text name : String) : Prop :=
  ∃ number file program, Ast.Program.ofSource number file text = .ok program ∧
    ∃ stmt ∈ program.stmts, ∃ type definition span,
      Ast.Part.In (.stmt (.typeDef type definition span)) (.stmt stmt) ∧ type.name.name = name

/-- The naming in which types go by the names that some texts define. -/
def definitions (texts : List String) : Naming :=
  ⟨fun _ => True, fun name => ∃ text ∈ texts, Defines text name⟩

/-- Texts respect the names that they define. -/
theorem admitted_definitions {texts : List String} {text : String} (htext : text ∈ texts)
    (strict : Bool) : Admitted ((definitions texts).regime strict) text := by
  intro number file program hprogram stmt hstmt part hin
  cases part with
  | stmt inner =>
      cases inner with
      | typeDef type definition span =>
          exact ⟨⟨text, htext, number, file, program, hprogram, stmt, hstmt, type, definition, span,
            hin, rfl⟩, fun _ _ => trivial⟩
      | _ => trivial
  | expr e =>
      obtain ⟨node, span⟩ := e
      cases node with
      | struct type inits => exact fun _ _ => trivial
      | _ => trivial
  | init => trivial
  | func f => exact fun _ _ => trivial

variable {config : Config} {output : Output} {s : Session} {texts : List String} {bound : Nat}
  {text : String} {x : Moment}

/-- The moments after some texts respect the names that these and the text that is run define. -/
theorem Meets.admits_definitions (hx : s.Meets bound text x) (h : After config output texts s) :
    ((definitions (texts ++ [text])).regime config.strict).Admits x :=
  hx.admits h _ (fun _ => trivial) ((Naming.OfStore.empty _).add none) fun _ hother =>
    admitted_definitions hother config.strict

/-- **Type checks let the kinds through that they name**, unless a type of that name is defined. At
every moment of a run of a text, after any others, a value that a check lets through is of the kind
that goes by the name of the check, or it is a struct and one of the texts defines a type of that
name. Nothing is taken unchecked: each value that a call binds to a parameter has been let through by
the type of the parameter, and each value that a struct literal takes by the type of the field. An
assignment gives a variable a value that goes by the name of the old one, and is of the same kind,
unless one of the texts defines a type of that name. -/
theorem accepts_kind (h : After config output texts s) (hx : s.Meets bound text x) :
    (∀ name v, x.Accepts config.strict name v → v.kindName = name ∨
      v.kindName = "struct" ∧ ∃ other ∈ texts ++ [text], Defines other name) ∧
    (∀ name f args span, x.task = .call name f args span →
      ∀ bindings, f.checkArguments name args = .ok bindings →
        bindings = (f.definition.params.zip args).map (fun pair => (pair.1.name.name, pair.2)) ∧
        ∀ pair ∈ f.definition.params.zip args,
          x.Accepts config.strict pair.1.type.name.name pair.2) ∧
    (∀ scope typeName declared given init rest,
      x.task = .inits scope typeName declared given (init :: rest) →
      ∀ fields m', Ast.Node.evalInits (.upTo config.strict x.bound) scope typeName declared given
          (init :: rest) x.machine = some (.ok fields, m') →
        ∃ (type : TypeName) (v : Value) (m : Machine),
          NameMap.find? declared init.name.name = some type ∧
          init.value.eval (.upTo config.strict x.bound) scope x.machine = some (.ok v, m) ∧
          x.Accepts config.strict type.name v ∧
          Ast.Node.evalInits (.upTo config.strict x.bound) scope typeName declared
            (NameMap.insert init.name.name v given) rest m = some (.ok fields, m')) ∧
    ∀ scope target e span, x.task = .stmt scope (.assign target e span) →
      ∀ v m t, e.eval (.upTo config.strict x.bound) scope x.machine = some (.ok v, m) →
        m.store.assignPlace scope target v = .ok t →
        ∃ binder old new, m.store.binder? scope target.root.name = some (binder, old) ∧
          t = m.store.defineVariable binder target.root.name new ∧ old.typeName = new.typeName ∧
          (new.kindName = old.kindName ∨
            ∃ other ∈ texts ++ [text], Defines other old.typeName) := by
  have hadmits := hx.admits_definitions h
  obtain ⟨n, task, m₀⟩ := x
  refine ⟨fun name v hv => ?_, ?_, ?_, ?_⟩
  · -- what the type checks let through
    obtain ⟨hvalue, rfl⟩ := hv.ofValue hadmits
    exact hvalue.typeName.imp_left Eq.symm
  · rintro name f args span rfl bindings hbindings
    exact Moment.accepts_of_checkArguments span hbindings
  · rintro scope typeName declared given init rest rfl fields m' hfields
    exact Moment.accepts_of_evalInits hfields
  · rintro scope target e span rfl v m t hv ht
    obtain ⟨⟨binder, old, new, hbinder, rfl, htype, haccepts⟩, -⟩ :=
      Moment.accepts_of_assignPlace span hv ht
    refine ⟨binder, old, new, hbinder, rfl, htype, ?_⟩
    -- the old value and the new one go by one name, so a difference of kind needs a definition
    have hold := Naming.OfStore.binder? (hadmits.assigned hv).1 hbinder
    have hnew := (haccepts.ofValue hadmits).1
    rcases hold.typeName with hname | ⟨-, hdefined⟩
    · rcases hnew.typeName with hname' | ⟨-, hdefined⟩
      · exact .inl (hname'.symm.trans (htype.symm.trans hname))
      · exact .inr (htype ▸ hdefined)
    · exact .inr hdefined

/-- The kind of the value of a variable in the outermost scope. -/
def kind? (s : Session) (name : String) : Option String :=
  (s.machine.store.lookupVariable s.root name).map Value.kindName

/-- Whether a run has ended without a value. -/
def completes : Except Failure (Option Value) → Bool
  | .ok none => true
  | _ => false

/-- Where a type `int` is defined, a variable that holds a number can be given a struct. -/
theorem int_redefined :
    ∃ s t, After ⟨"", some 8, false⟩ .silent ["type int = struct { }; let x = 1;"] s ∧
      s.run 9 "set x = int { };" = some (.ok none, t) ∧
      s.kind? "x" = some "int" ∧ t.kind? "x" = some "struct" := by
  let first := (new ⟨"", some 8, false⟩ .silent).run 9 "type int = struct { }; let x = 1;"
  have hruns : first.any (fun p => decide (p.2.kind? "x" = some "int") &&
      (p.2.run 9 "set x = int { };").any fun q =>
        completes q.1 && decide (q.2.kind? "x" = some "struct")) = true := by decide +kernel
  obtain ⟨⟨r, s⟩, hs, hnext⟩ := (Option.any_eq_true _ _).mp hruns
  obtain ⟨hbefore, hnext⟩ := Bool.and_eq_true_iff.mp hnext
  obtain ⟨⟨q, t⟩, ht, hq⟩ := (Option.any_eq_true _ _).mp hnext
  obtain ⟨hcompletes, hafter⟩ := Bool.and_eq_true_iff.mp hq
  unfold completes at hcompletes
  split at hcompletes
  · rename_i hok
    rw [show q = _ from hok] at ht
    exact ⟨s, t, After.new.run hs, ht, of_decide_eq_true hbefore, of_decide_eq_true hafter⟩
  · cases hcompletes

/-- Whether a text has been read as one assignment. -/
def assigns : Except Failure Ast.Program → Bool
  | .ok ⟨[.assign _ _ _]⟩ => true
  | _ => false

/-- After a text that gives a variable a number, an assignment keeps the kind of its value, if no
type by the name of that kind is defined. -/
theorem accepts_kind_number :
    ∃ s target e span, After ⟨"", some 8, false⟩ .silent ["let x = 1;"] s ∧
      s.Meets 9 "set x = 2;" ⟨9, .stmt s.root (.assign target e span), s.machine⟩ ∧
      ∀ v m t, e.eval (.upTo false 9) s.root s.machine = some (.ok v, m) →
        m.store.assignPlace s.root target v = .ok t →
        ∃ binder old new, m.store.binder? s.root target.root.name = some (binder, old) ∧
          t = m.store.defineVariable binder target.root.name new ∧ old.typeName = new.typeName ∧
          (new.kindName = old.kindName ∨
            ∃ other ∈ ["let x = 1;", "set x = 2;"], Defines other old.typeName) := by
  let first := (new ⟨"", some 8, false⟩ .silent).run 9 "let x = 1;"
  have hreads : first.any (fun p => assigns
      (Ast.Program.ofSource (p.2.sources + 1) p.2.config.file "set x = 2;")) = true := by
    decide +kernel
  obtain ⟨⟨r, s⟩, hs, hassigns⟩ := (Option.any_eq_true _ _).mp hreads
  unfold assigns at hassigns
  split at hassigns
  · rename_i target e span hread
    have hafter : After ⟨"", some 8, false⟩ .silent ["let x = 1;"] s := After.new.run hs
    have hmeets : s.Meets 9 "set x = 2;" ⟨9, .stmt s.root (.assign target e span), s.machine⟩ :=
      ⟨_, hread, .single .stmt⟩
    have hkept := (accepts_kind hafter hmeets).2.2.2 s.root target e span rfl
    exact ⟨s, target, e, span, hafter, hmeets, hkept⟩
  · cases hassigns

end Session

end StructScript
