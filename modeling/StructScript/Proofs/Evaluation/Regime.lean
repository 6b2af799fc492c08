import Mathlib.Logic.Relation
import StructScript.Evaluation.Call
import StructScript.Proofs.Store.Assignment

/-!
# Regimes: what runs of some code keep

Programs are made of statements, expressions, initialisers and function literals, the pieces of
code (`Ast.Part`). A `Regime` says which code may come to run, which stores may be met while it runs,
which values may be bound or returned, in which scopes expressions are evaluated and in which
statements are run. Its fields are the closure conditions, one for each basic step of the machine:
looking up, binding, assigning, entering a function, defining types, building and updating structs.
From them every evaluation of the code keeps the regime, whether it ends in a value or in an error and
however deep its calls are nested:

* `Regime.Keeps`, the property of a single computation, with one lemma for each way of putting
  computations together;
* `Regime.keeps_eval` and `Regime.keeps_execAll`, for rules whose calls keep it;
* `Regime.keeps_call`, the calls themselves, by induction on their nesting;
* `Regime.keptBy_call` and `Regime.keeps_run`, the rules of the language.

An invariant of the evaluator is proved by giving the regime that states it.
-/

namespace StructScript

namespace Ast

/-- A piece of code. -/
inductive Part where
  | stmt (stmt : Stmt)
  | expr (expr : Expr)
  | init (init : FieldInit)
  | func (definition : FuncDef)

namespace Part

/-- The first piece stands directly in the second. -/
inductive ChildOf : Part → Part → Prop where
  | init {i : FieldInit} {inits : List FieldInit} (h : i ∈ inits) (type : TypeExpr) (span : Span) :
      ChildOf (.init i) (.expr ⟨.struct type inits, span⟩)
  | initValue (i : FieldInit) : ChildOf (.expr i.value) (.init i)
  | operand (op : UnaryOp) (e : Expr) (span : Span) : ChildOf (.expr e) (.expr ⟨.unary op e, span⟩)
  | left (op : BinaryOp) (a b : Expr) (span : Span) :
      ChildOf (.expr a) (.expr ⟨.binary op a b, span⟩)
  | right (op : BinaryOp) (a b : Expr) (span : Span) :
      ChildOf (.expr b) (.expr ⟨.binary op a b, span⟩)
  | arg {e : Expr} {args : List Expr} (h : e ∈ args) (callee : Place) (span : Span) :
      ChildOf (.expr e) (.expr ⟨.call callee args, span⟩)
  | func (f : FuncDef) (span : Span) : ChildOf (.func f) (.expr ⟨.func f, span⟩)
  | body {stmt : Stmt} {f : FuncDef} (h : stmt ∈ f.body) : ChildOf (.stmt stmt) (.func f)
  | defined (target : Place) (e : Expr) (span : Span) :
      ChildOf (.expr e) (.stmt (.define target e span))
  | assigned (target : Place) (e : Expr) (span : Span) :
      ChildOf (.expr e) (.stmt (.assign target e span))
  | returned (e : Expr) (span : Span) : ChildOf (.expr e) (.stmt (.ret (some e) span))
  | statement (e : Expr) : ChildOf (.expr e) (.stmt (.expr e))

/-- The first piece is the second or stands in it, at any depth. -/
def In : Part → Part → Prop := Relation.ReflTransGen ChildOf

end Part

end Ast

/-- A value that is neither a struct nor a function. -/
def Value.Plain : Value → Prop
  | .struct _ => False
  | .func _ => False
  | _ => True

namespace Value

/-! ### What literals and operators give -/

/-- An integer has no parts. -/
theorem plain_of_ofInt {op : String} {n : Int} {v : Value} (h : ofInt op n = .ok v) : v.Plain := by
  unfold ofInt at h
  split at h <;> cases h
  trivial

/-- A literal is neither a struct nor a function. -/
theorem plain_of_ofLiteral {kind : LiteralKind} {lexeme : String} {v : Value}
    (h : ofLiteral kind lexeme = .ok v) : v.Plain := by
  unfold ofLiteral at h
  repeat' split at h
  all_goals cases h <;> trivial

/-- No unary operator gives a struct or a function. -/
theorem plain_of_applyUnary {op : UnaryOp} {a v : Value} (h : applyUnary op a = .ok v) :
    v.Plain := by
  unfold applyUnary at h
  split at h
  case h_2 => exact plain_of_ofInt h
  all_goals cases h <;> trivial

/-- Operators on integers give values without parts. -/
theorem plain_of_applyInt {op : BinaryOp} {a b : Int} {v : Value} (h : applyInt op a b = .ok v) :
    v.Plain := by
  unfold applyInt at h
  repeat' split at h
  all_goals first
    | exact plain_of_ofInt h
    | cases h; trivial

/-- No binary operator gives a struct or a function. -/
theorem plain_of_applyBinary {op : BinaryOp} {a b v : Value} (h : applyBinary op a b = .ok v) :
    v.Plain := by
  simp only [applyBinary] at h
  split at h
  · split at h
    · exact plain_of_applyInt h
    all_goals cases h <;> cases op <;> trivial
  · cases h

/-- No binary operator has structs or functions as operands. -/
theorem applyBinary_of_not_plain (op : BinaryOp) {a b : Value} (h : ¬ a.Plain ∨ ¬ b.Plain) :
    applyBinary op a b = .error (.unsupportedBinary op.symbol a.typeName b.typeName) := by
  have hsupported (c : Capability) (v : Value) (hv : ¬ v.Plain) : c.supportedBy v = false := by
    cases v with
    | struct record => rfl
    | func f => rfl
    | _ => exact absurd trivial hv
  rcases h with h | h <;> simp [applyBinary, hsupported _ _ h]

end Value

/-- Opening a scope adds a child and binds its variables in it. -/
theorem Eval.enterScope_apply (parent : ScopeId) (bindings : List (String × Value)) (m : Machine) :
    enterScope parent bindings m = some (.ok (m.store.addChild parent).1,
      { m with store :=
          (m.store.addChild parent).2.defineAll (m.store.addChild parent).1 bindings }) := rfl

namespace Closure

/-! ### What a call binds -/

/-- Arguments of the types of the parameters are bound to them. -/
theorem eq_of_bindArguments {callee : String} {pairs : List (Ast.Param × Value)}
    {bindings : List (String × Value)} (h : bindArguments callee pairs = .ok bindings) :
    bindings = pairs.map (fun pair => (pair.1.name.name, pair.2)) ∧
      ∀ pair ∈ pairs, pair.2.typeName = pair.1.type.name.name := by
  induction pairs generalizing bindings with
  | nil =>
      cases h
      exact ⟨rfl, nofun⟩
  | cons pair rest ih =>
      obtain ⟨param, arg⟩ := pair
      rw [bindArguments] at h
      split at h
      · rename_i htype
        split at h
        · rename_i tail htail
          cases h
          obtain ⟨htailEq, htypes⟩ := ih htail
          exact ⟨congrArg _ htailEq, List.forall_mem_cons.mpr ⟨htype, htypes⟩⟩
        · cases h
      · cases h

/-- A call binds each parameter to the argument at its place, which is of its type. -/
theorem eq_of_checkArguments {callee : String} {f : Closure} {args : List Value}
    {bindings : List (String × Value)} (h : f.checkArguments callee args = .ok bindings) :
    bindings = (f.definition.params.zip args).map (fun pair => (pair.1.name.name, pair.2)) ∧
      ∀ pair ∈ f.definition.params.zip args, pair.2.typeName = pair.1.type.name.name := by
  unfold checkArguments at h
  split at h
  · exact eq_of_bindArguments h
  · cases h

/-- The values that a call binds are among its arguments. -/
theorem mem_of_checkArguments {callee : String} {f : Closure} {args : List Value}
    {bindings : List (String × Value)} (h : f.checkArguments callee args = .ok bindings)
    {b : String × Value} (hb : b ∈ bindings) : b.2 ∈ args := by
  obtain ⟨rfl, -⟩ := eq_of_checkArguments h
  obtain ⟨pair, hpair, rfl⟩ := List.mem_map.mp hb
  exact (List.of_mem_zip hpair).2

end Closure

/-- What is kept while some code runs. Struct literals give all fields where `strict` is set. -/
structure Regime (strict : Bool) where
  /-- The code that may come to run. -/
  code : Ast.Part → Prop
  /-- The stores that may be met. -/
  store : Store → Prop
  /-- The values that may be bound and returned. -/
  value : Value → Prop
  /-- The scopes in which expressions are evaluated. -/
  readable : ScopeId → Prop
  /-- The scopes in which statements are run. -/
  writable : ScopeId → Prop
  /-- What the type of a struct literal may stand for. -/
  inst : Ast.TypeExpr → Instantiation → Prop
  code_child : ∀ {part whole : Ast.Part}, part.ChildOf whole → code whole → code part
  readable_of_writable : ∀ {id : ScopeId}, writable id → readable id
  value_plain : ∀ {v : Value}, v.Plain → value v
  value_func : ∀ {id : ScopeId} {f : Ast.FuncDef}, code (.func f) → readable id →
    value (.func ⟨f, id⟩)
  code_func : ∀ {f : Closure}, value (.func f) → code (.func f.definition)
  inst_of_instantiate : ∀ {s : Store} {id : ScopeId} {type : Ast.TypeExpr}
    {inits : List Ast.FieldInit} {span : Span} {template : StructType} {i : Instantiation},
    code (.expr ⟨.struct type inits, span⟩) → store s → readable id →
    s.lookupType id type.name.name = some template →
    template.instantiate (TypeName.ofExpr type).args = .ok i → inst type i
  value_struct : ∀ {type : Ast.TypeExpr} {i : Instantiation} {fields : NameMap Value}, inst type i →
    NameMap.Sorted fields → (∀ entry ∈ fields, value entry.2) →
    (∀ entry ∈ fields, ∃ declared, i.type.fields.find? entry.1 = some declared ∧
      entry.2.typeName = declared.name) →
    (strict = true → ∀ name ∈ i.type.fields.names, NameMap.contains fields name = true) →
    value (.struct ⟨TypeName.ofExpr type, i.bindings, i.type.fields, fields⟩)
  /-- What a struct holds may be bound and returned itself. -/
  value_field : ∀ {record : Record Value}, value (.struct record) →
    ∀ entry ∈ record.fields, value entry.2
  /-- A field of a struct may be given a value of its declared type, or of the type of the value
  that it holds. -/
  value_update : ∀ {record : Record Value} {name : String} {v : Value}, value (.struct record) →
    value v →
    ((∃ type, record.fieldTypes.find? name = some type ∧ v.typeName = type.name) ∨
      ∃ old, NameMap.find? record.fields name = some old ∧ v.typeName = old.typeName) →
    value (.struct { record with fields := NameMap.insert name v record.fields })
  value_lookup : ∀ {s : Store} {id : ScopeId} {name : String} {v : Value}, store s → readable id →
    s.lookupVariable id name = some v → value v
  store_define : ∀ {s : Store} {id : ScopeId} (name : String) {v : Value}, store s → writable id →
    value v → store (s.defineVariable id name v)
  store_defineType : ∀ {s : Store} {id : ScopeId} {type : Ast.TypeExpr}
    {definition : Ast.StructDef} {span : Span}, code (.stmt (.typeDef type definition span)) →
    store s → writable id → store (s.defineType id type.name.name
      (StructType.ofDefinition type.name.name definition))
  store_assign : ∀ {s : Store} {id binder : ScopeId} {name : String} {v old : Value}, store s →
    readable id → value v → s.binder? id name = some (binder, old) → old.typeName = v.typeName →
    store (s.defineVariable binder name v)
  /-- A function is run in a new scope, which may be changed. -/
  enter : ∀ {s : Store} {f : Closure}, store s → value (.func f) →
    store (s.addChild f.scope).2 ∧ writable (s.addChild f.scope).1

namespace Regime

variable {strict : Bool} {α β : Type}

/-- From every store of the regime the computation ends in such a store, and if it gives a
value then one in `post`. -/
def Keeps (R : Regime strict) (m : Eval α) (post : α → Prop) : Prop :=
  ∀ s r t, R.store s.store → m s = some (r, t) →
    R.store t.store ∧ ∀ a, r = .ok a → post a

variable {R : Regime strict} {post : α → Prop} {post' : β → Prop}

/-! ### Putting computations together -/

namespace Keeps

/-- Giving a value. -/
theorem pure {a : α} (h : post a) : R.Keeps (Pure.pure a) post := by
  intro s r t hs hr
  cases hr
  exact ⟨hs, fun b hb => by cases hb; exact h⟩

/-- Failing leaves the store as it is. -/
theorem fail (e : EvalError) : R.Keeps (Bounded.fail e) post := by
  intro s r t hs hr
  cases hr
  exact ⟨hs, fun b hb => by cases hb⟩

/-- Without a bound left nothing is changed. -/
theorem exhausted : R.Keeps Bounded.exhausted post := by
  intro s r t hs hr
  cases hr

/-- One computation after another, which may rely on what the first has given. -/
theorem bind {m : Eval α} {f : α → Eval β} (hm : R.Keeps m post)
    (hf : ∀ a, post a → R.Keeps (f a) post') : R.Keeps (m >>= f) post' := by
  intro s r t hs hr
  rcases Bounded.cases_of_bind hr with ⟨e, he, rfl⟩ | ⟨a, s', ha, hr⟩
  · exact ⟨(hm s _ t hs he).1, fun b hb => by cases hb⟩
  · obtain ⟨hs', hpost⟩ := hm s _ s' hs ha
    exact hf a (hpost a rfl) s' r t hs' hr

/-- Giving an error its place. -/
theorem locate {m : Eval α} (hm : R.Keeps m post) (span : Span) :
    R.Keeps (Eval.locate span m) post := by
  intro s r t hs hr
  obtain ⟨r', hr', hok⟩ := Bounded.exists_of_mapError hr
  exact ⟨(hm s r' t hs hr').1, fun a ha => (hm s r' t hs hr').2 a (hok a ha)⟩

/-- A result without a place. -/
theorem ofCause {x : Except EvalError.Cause α} (h : ∀ a, x = .ok a → post a) :
    R.Keeps (Eval.ofCause x) post := by
  intro s r t hs hr
  rw [Eval.ofCause, Bounded.ofExcept_apply] at hr
  cases hr
  refine ⟨hs, fun a ha => h a ?_⟩
  cases x with
  | error cause => cases ha
  | ok b =>
    cases ha
    rfl

/-- The state is read, and what is known of its store is known of what is read. -/
theorem state {f : Machine → Eval α} (h : ∀ m, R.store m.store → R.Keeps (f m) post) :
    R.Keeps (Bounded.state >>= f) post := fun s r t hs hr => h s hs s r t hs hr

end Keeps

/-! ### The basic steps of the machine -/

/-- A value that is found where a scope may be read. -/
theorem keeps_lookup {scope : ScopeId} (hscope : R.readable scope) (name : Ast.Ident) :
    R.Keeps (Eval.lookup scope name) R.value := by
  apply Keeps.state
  intro m hm
  split
  · rename_i v hv
    exact Keeps.pure (R.value_lookup hm hscope hv)
  · exact Keeps.fail _

/-- Defining a variable in a scope that may be written to. -/
theorem keeps_define {scope : ScopeId} (hscope : R.writable scope) (name : String) {v : Value}
    (hv : R.value v) : R.Keeps (Eval.define scope name v) fun _ => True := by
  intro s r t hs hr
  cases hr
  exact ⟨R.store_define name hs hscope hv, fun _ _ => trivial⟩

/-- Defining a type that the code defines. -/
theorem keeps_defineType {scope : ScopeId} (hscope : R.writable scope) {type : Ast.TypeExpr}
    {definition : Ast.StructDef} {span : Span}
    (hcode : R.code (.stmt (.typeDef type definition span))) :
    R.Keeps (Eval.defineType scope type.name.name
      (StructType.ofDefinition type.name.name definition)) fun _ => True := by
  intro s r t hs hr
  cases hr
  exact ⟨R.store_defineType hcode hs hscope, fun _ _ => trivial⟩

/-- Printing leaves the store as it is. -/
theorem keeps_print (text : String) : R.Keeps (Eval.print text) fun _ => True := by
  intro s r t hs hr
  cases hr
  exact ⟨hs, fun _ _ => trivial⟩

/-- Binding several variables in turn. -/
theorem store_defineAll {id : ScopeId} (hid : R.writable id) (bindings : List (String × Value))
    (hb : ∀ b ∈ bindings, R.value b.2) {s : Store} (hs : R.store s) :
    R.store (bindings.foldl (fun s b => s.defineVariable id b.1 b.2) s) := by
  induction bindings generalizing s with
  | nil => exact hs
  | cons b rest ih =>
      have hfirst := R.store_define b.1 hs hid (hb b List.mem_cons_self)
      exact ih (fun c hc => hb c (List.mem_cons_of_mem _ hc)) hfirst

/-- The scope of a call may be changed, whatever its arguments. -/
theorem keeps_enterScope {f : Closure} (hf : R.value (.func f)) {bindings : List (String × Value)}
    (hb : ∀ b ∈ bindings, R.value b.2) :
    R.Keeps (Eval.enterScope f.scope bindings) R.writable := by
  intro s r t hs hr
  obtain ⟨hchild, hid⟩ := R.enter hs hf
  cases hr
  exact ⟨store_defineAll hid bindings hb hchild, fun a ha => by cases ha; exact hid⟩

/-- The running calls play no part in a regime. -/
theorem keeps_inFrame {body : Eval α} (h : R.Keeps body post) (frame : Frame) :
    R.Keeps (Eval.inFrame frame body) post := by
  intro s r t hs hr
  unfold Eval.inFrame at hr
  split at hr
  · cases hr
    exact ⟨hs, fun b hb => by cases hb⟩
  · rename_i calls _
    split at hr
    · cases hr
    · rename_i a s' hbody
      cases hr
      exact h { s with calls := calls } _ s' hs hbody
    · rename_i e s' hbody
      cases hr
      exact ⟨(h { s with calls := calls } _ s' hs hbody).1, fun b hb => by cases hb⟩

/-! ### Places -/

/-- The fields of a value may be read. -/
theorem value_get {v : Value} (hv : R.value v) (field : String) : R.value (v.get field) := by
  have hprimitive : ∀ w : Value, w.Plain → R.value (w.getPrimitive field) := by
    intro w hw
    unfold Value.getPrimitive
    repeat' split
    all_goals first
      | exact R.value_plain hw
      | exact R.value_plain trivial
  cases v with
  | struct record =>
      rcases h : NameMap.find? record.fields field with _ | w
      · simpa [Value.get, h] using R.value_plain (v := .nil) trivial
      · simpa [Value.get, h] using R.value_field hv _ (NameMap.mem_of_find? h)
  | func f => exact R.value_plain trivial
  | _ => exact hprimitive _ trivial

/-- Reading a place from a scope that may be read, by induction on the place. -/
theorem keeps_readPlace {scope : ScopeId} (hscope : R.readable scope) :
    (place : Ast.Place) → R.Keeps (Eval.readPlace scope place) R.value
  | .var name => keeps_lookup hscope name
  | .field base name _ => by
      rw [Eval.readPlace]
      exact (keeps_readPlace hscope base).bind fun v hv => Keeps.pure (value_get hv name.name)

/-- Replacing a field at the end of a path gives a value that may be bound, and of the same type as
before. -/
theorem value_setPath {v : Value} (hv : R.value v) (path : List Ast.Ident) {target new : Value}
    (htarget : R.value target) (hset : target.setPath path v = .ok new) :
    R.value new ∧ (path ≠ [] → new.typeName = target.typeName) := by
  induction path generalizing target new with
  | nil =>
      unfold Value.setPath at hset
      cases hset
      exact ⟨hv, fun h => absurd rfl h⟩
  | cons field rest ih =>
      unfold Value.setPath at hset
      split at hset
      · rename_i record
        split at hset
        · -- the last step: the declared type is checked
          split at hset
          · cases hset
          · rename_i declared hdeclared
            split at hset
            · rename_i htype
              cases hset
              exact ⟨R.value_update htarget hv (.inl ⟨declared, hdeclared, htype⟩), fun _ => rfl⟩
            · cases hset
        · -- a step on the way: an absent field has no fields itself, so the value is there
          rename_i next rest
          split at hset
          · cases hset
          · rename_i inner hinner
            cases hset
            rcases hold : NameMap.find? record.fields field.name with _ | old
            · rw [hold] at hinner
              simp [Value.setPath] at hinner
            · rw [hold, Option.getD_some] at hinner
              have hvold := R.value_field htarget _ (NameMap.mem_of_find? hold)
              obtain ⟨hinnerv, htype⟩ := ih hvold hinner
              have hsame := htype (List.cons_ne_nil _ _)
              exact ⟨R.value_update htarget hinnerv (.inr ⟨old, hold, hsame⟩), fun _ => rfl⟩
      · cases hset

/-- A store that may be met may be met after an assignment of a value that may be bound. -/
theorem store_assignPlace {s t : Store} {scope : ScopeId} {target : Ast.Place} {v : Value}
    (hs : R.store s) (hscope : R.readable scope) (hv : R.value v)
    (h : s.assignPlace scope target v = .ok t) : R.store t := by
  obtain ⟨binder, old, new, hbinder, hset, htype, rfl⟩ := Store.exists_of_assignPlace h
  have hlookup : s.lookupVariable scope target.root.name = some old := by
    rw [Store.lookupVariable_eq, hbinder, Option.map_some]
  have hnew := (value_setPath hv _ (R.value_lookup hs hscope hlookup) hset).1
  exact R.store_assign hs hscope hnew hbinder htype

/-- Assigning to a place. -/
theorem keeps_assignPlace {scope : ScopeId} (hscope : R.readable scope) (target : Ast.Place)
    {v : Value} (hv : R.value v) : R.Keeps (Eval.assignPlace scope target v) fun _ => True := by
  intro s r t hs hr
  unfold Eval.assignPlace at hr
  split at hr
  · cases hr
    exact ⟨hs, fun _ _ => trivial⟩
  · rename_i store hstore
    cases hr
    exact ⟨store_assignPlace hs hscope hv hstore, fun _ _ => trivial⟩

/-! ### Expressions -/

/-- A type that the code makes structs of is one that may be met. -/
theorem keeps_instantiate {scope : ScopeId} (hscope : R.readable scope) {type : Ast.TypeExpr}
    {inits : List Ast.FieldInit} {span : Span}
    (hcode : R.code (.expr ⟨.struct type inits, span⟩)) :
    R.Keeps (Eval.instantiate scope type) (R.inst type) := by
  apply Keeps.state
  intro m hm
  split
  · exact Keeps.fail _
  · rename_i template htemplate
    refine (Keeps.ofCause fun i hi => ?_).locate _
    exact R.inst_of_instantiate hcode hm hscope htemplate hi

/-- What the fields of a struct literal have been found to be: in the order of their names, values
that may be bound, of the declared types. -/
structure Given (R : Regime strict) (declared : NameMap TypeName) (fields : NameMap Value) : Prop
    where
  sorted : NameMap.Sorted fields
  suits : ∀ entry ∈ fields, R.value entry.2 ∧
    ∃ type, declared.find? entry.1 = some type ∧ entry.2.typeName = type.name

/-- Before the first initialiser no fields are given. -/
theorem Given.none (declared : NameMap TypeName) : R.Given declared [] := ⟨.nil, nofun⟩

/-- A value of the declared type may be given. -/
theorem Given.insert {declared : NameMap TypeName} {fields : NameMap Value} {name : String}
    {v : Value} {type : TypeName} (hgiven : R.Given declared fields) (hv : R.value v)
    (hdeclared : declared.find? name = some type) (htype : v.typeName = type.name) :
    R.Given declared (fields.insert name v) := by
  refine ⟨hgiven.sorted.insert name v, fun entry hentry => ?_⟩
  rcases NameMap.mem_insert hentry with rfl | hentry
  · exact ⟨hv, type, hdeclared, htype⟩
  · exact hgiven.suits entry hentry

/-- A struct literal whose fields suit their declared types gives a value that may be bound. -/
theorem value_buildStruct {type : Ast.TypeExpr} {inst : Instantiation} {fields : NameMap Value}
    {v : Value} (hinst : R.inst type inst) (hgiven : R.Given inst.type.fields fields)
    (h : Eval.buildStruct strict type inst fields = .ok v) : R.value v := by
  unfold Eval.buildStruct at h
  split at h
  · cases h
  · rename_i hmissing
    cases h
    refine R.value_struct hinst hgiven.sorted (fun entry hentry => (hgiven.suits entry hentry).1)
      (fun entry hentry => (hgiven.suits entry hentry).2) fun hstrict name hname => ?_
    rw [if_pos hstrict, Eval.missingField?, List.find?_eq_none] at hmissing
    simpa using hmissing name hname

/-- Rules under which a regime is kept: they ask for all fields where it says so, and their calls
keep it. -/
structure KeptBy (R : Regime strict) (rules : Rules) : Prop where
  strict_eq : rules.strict = strict
  keeps_call : ∀ (name : String) {f : Closure} {args : List Value} (span : Span),
    R.value (.func f) → (∀ v ∈ args, R.value v) → R.Keeps (rules.call name f args span) R.value

variable {rules : Rules} {scope : ScopeId}

/-- Calling what a place holds. -/
theorem keeps_callPlace (hrules : R.KeptBy rules) (hscope : R.readable scope) (callee : Ast.Place)
    {args : List Value} (hargs : ∀ v ∈ args, R.value v) (span : Span) :
    R.Keeps (Eval.callPlace rules scope callee args span) R.value := by
  unfold Eval.callPlace
  split
  · rename_i f _
    exact (keeps_print (f.printed args)).bind fun _ _ => Keeps.pure (R.value_plain trivial)
  · apply (keeps_readPlace hscope callee).bind
    intro v hv
    split
    · exact hrules.keeps_call _ _ hv hargs
    · exact Keeps.fail _

mutual

/-- Evaluating an expression of the code keeps the regime. -/
theorem keeps_eval (hrules : R.KeptBy rules) (hscope : R.readable scope) :
    (e : Ast.Expr) → R.code (.expr e) → R.Keeps (e.eval rules scope) R.value
  | ⟨node, span⟩, hcode => by
      rw [Ast.Expr.eval]
      exact (keeps_evalNode hrules hscope span node hcode).locate span

/-- Evaluating what an expression is, with one case for each kind. -/
theorem keeps_evalNode (hrules : R.KeptBy rules) (hscope : R.readable scope) (span : Span) :
    (node : Ast.Node) → R.code (.expr ⟨node, span⟩) →
      R.Keeps (node.eval rules scope span) R.value
  | .literal kind lexeme, _ => by
      rw [Ast.Node.eval]
      exact Keeps.ofCause fun v hv => R.value_plain (Value.plain_of_ofLiteral hv)
  | .place place, _ => by
      rw [Ast.Node.eval]
      exact keeps_readPlace hscope place
  | .struct type inits, hcode => by
      rw [Ast.Node.eval]
      apply (keeps_instantiate hscope hcode).bind
      intro inst hinst
      have hinits := keeps_evalInits hrules hscope type.name.name (.none inst.type.fields) inits
        fun _ h => R.code_child (.init h type span) hcode
      apply hinits.bind
      intro fields hfields
      rw [hrules.strict_eq]
      exact Keeps.ofCause fun v hv => value_buildStruct hinst hfields hv
  | .unary op operand, hcode => by
      rw [Ast.Node.eval]
      refine (keeps_eval hrules hscope operand (R.code_child (.operand ..) hcode)).bind
        fun a _ => ?_
      exact Keeps.ofCause fun v hv => R.value_plain (Value.plain_of_applyUnary hv)
  | .binary op left right, hcode => by
      rw [Ast.Node.eval]
      apply (keeps_eval hrules hscope left (R.code_child (.left ..) hcode)).bind
      intro a _
      apply (keeps_eval hrules hscope right (R.code_child (.right ..) hcode)).bind
      intro b _
      exact Keeps.ofCause fun v hv => R.value_plain (Value.plain_of_applyBinary hv)
  | .call callee args, hcode => by
      rw [Ast.Node.eval]
      have hargs := keeps_evalArgs hrules hscope args
        fun _ h => R.code_child (.arg h callee span) hcode
      apply hargs.bind
      intro values hvalues
      exact keeps_callPlace hrules hscope callee hvalues span
  | .func f, hcode => by
      rw [Ast.Node.eval]
      exact Keeps.pure (R.value_func (R.code_child (.func f span) hcode) hscope)

/-- Evaluating initialisers, each checked for the declared type of its field. -/
theorem keeps_evalInits (hrules : R.KeptBy rules) (hscope : R.readable scope) (typeName : String)
    {declared : NameMap TypeName} {given : NameMap Value} (hgiven : R.Given declared given) :
    (inits : List Ast.FieldInit) → (∀ i ∈ inits, R.code (.init i)) →
      R.Keeps (Ast.Node.evalInits rules scope typeName declared given inits) (R.Given declared)
  | [], _ => by
      rw [Ast.Node.evalInits]
      exact Keeps.pure hgiven
  | ⟨name, value, span⟩ :: rest, hcode => by
      obtain ⟨hinit, hrest⟩ := List.forall_mem_cons.mp hcode
      rw [Ast.Node.evalInits]
      split
      · exact Keeps.fail _
      · rename_i type hdeclared
        refine (keeps_eval hrules hscope value (R.code_child (.initValue ⟨name, value, span⟩) hinit)).bind
          fun v hv => ?_
        split
        · rename_i htype
          exact keeps_evalInits hrules hscope typeName (hgiven.insert hv hdeclared htype) rest hrest
        · exact Keeps.fail _

/-- Evaluating arguments from left to right. -/
theorem keeps_evalArgs (hrules : R.KeptBy rules) (hscope : R.readable scope) :
    (args : List Ast.Expr) → (∀ e ∈ args, R.code (.expr e)) →
      R.Keeps (Ast.Node.evalArgs rules scope args) fun values => ∀ v ∈ values, R.value v
  | [], _ => by
      rw [Ast.Node.evalArgs]
      exact Keeps.pure fun v hv => by cases hv
  | arg :: rest, hcode => by
      obtain ⟨harg, hrest⟩ := List.forall_mem_cons.mp hcode
      rw [Ast.Node.evalArgs]
      apply (keeps_eval hrules hscope arg harg).bind
      intro v hv
      refine (keeps_evalArgs hrules hscope rest hrest).bind fun vs hvs => Keeps.pure ?_
      exact List.forall_mem_cons.mpr ⟨hv, hvs⟩

end

/-! ### Statements and calls -/

/-- How a list of statements may end: a returned value may be bound. -/
def Ends (R : Regime strict) (outcome : Outcome) : Prop :=
  ∀ v, outcome.returned? = some v → R.value v

/-- Running a statement. -/
theorem keeps_exec (hrules : R.KeptBy rules) (hscope : R.writable scope) (stmt : Ast.Stmt)
    (hcode : R.code (.stmt stmt)) : R.Keeps (stmt.exec rules scope) R.Ends := by
  have hreadable := R.readable_of_writable hscope
  have hcompleted : R.Ends .completed := fun v hv => by cases hv
  cases stmt with
  | typeDef name definition span =>
      rw [Ast.Stmt.exec]
      exact (keeps_defineType hscope hcode).bind fun _ _ => Keeps.pure hcompleted
  | define target value span =>
      rw [Ast.Stmt.exec]
      refine (keeps_eval hrules hreadable value (R.code_child (.defined ..) hcode)).bind
        fun v hv => ?_
      exact (keeps_define hscope _ hv).bind fun _ _ => Keeps.pure hcompleted
  | assign target value span =>
      rw [Ast.Stmt.exec]
      refine (keeps_eval hrules hreadable value (R.code_child (.assigned ..) hcode)).bind
        fun v hv => ?_
      exact ((keeps_assignPlace hreadable target hv).locate span).bind fun _ _ =>
        Keeps.pure hcompleted
  | ret value span =>
      cases value with
      | none =>
          rw [Ast.Stmt.exec]
          exact Keeps.pure fun v hv => by cases hv; exact R.value_plain trivial
      | some value =>
          rw [Ast.Stmt.exec]
          refine (keeps_eval hrules hreadable value (R.code_child (.returned ..) hcode)).bind
            fun v hv => Keeps.pure ?_
          exact fun w hw => by cases hw; exact hv
  | expr e =>
      rw [Ast.Stmt.exec]
      exact (keeps_eval hrules hreadable e (R.code_child (.statement e) hcode)).bind fun _ _ =>
        Keeps.pure hcompleted

/-- Running statements in turn, up to a return. -/
theorem keeps_execAll (hrules : R.KeptBy rules) (hscope : R.writable scope)
    (stmts : List Ast.Stmt) (hcode : ∀ stmt ∈ stmts, R.code (.stmt stmt)) :
    R.Keeps (Ast.Stmt.execAll rules scope stmts) R.Ends := by
  induction stmts with
  | nil => exact Keeps.pure fun v hv => by cases hv
  | cons stmt rest ih =>
      obtain ⟨hfirst, hrest⟩ := List.forall_mem_cons.mp hcode
      rw [Ast.Stmt.execAll]
      apply (keeps_exec hrules hscope stmt hfirst).bind
      intro outcome houtcome
      cases outcome with
      | completed => exact ih hrest
      | returned v => exact Keeps.pure houtcome

/-- Calls keep the regime, however deep they are nested. -/
theorem keeps_call (R : Regime strict) (n : Nat) (name : String) {f : Closure}
    {args : List Value} (span : Span) (hf : R.value (.func f)) (hargs : ∀ v ∈ args, R.value v) :
    R.Keeps (Closure.call strict n name f args span) R.value := by
  induction n generalizing name f args span with
  | zero => exact Keeps.exhausted
  | succ n ih =>
      have hrules : R.KeptBy ⟨strict, Closure.call strict n⟩ :=
        ⟨rfl, fun name _ _ span hf hargs => ih name span hf hargs⟩
      have hcheck : R.Keeps (Eval.ofCause (f.checkArguments name args))
          fun bindings => ∀ b ∈ bindings, R.value b.2 :=
        Keeps.ofCause fun bindings h b hb => hargs _ (Closure.mem_of_checkArguments h hb)
      rw [Closure.call]
      apply hcheck.bind
      intro bindings hbindings
      have hbody : R.Keeps (Eval.enterScope f.scope bindings >>= fun scope =>
          Ast.Stmt.execAll ⟨strict, Closure.call strict n⟩ scope f.definition.body) R.Ends :=
        (keeps_enterScope hf hbindings).bind fun scope hscope => keeps_execAll hrules hscope _
          fun _ hstmt => R.code_child (.body hstmt) (R.code_func hf)
      refine (keeps_inFrame hbody _).bind fun outcome houtcome => Keeps.pure ?_
      cases outcome with
      | completed => exact R.value_plain trivial
      | returned v => exact houtcome v rfl

/-- The rules of the language keep every regime. -/
theorem keptBy_call (R : Regime strict) (bound : Nat) :
    R.KeptBy ⟨strict, Closure.call strict bound⟩ :=
  ⟨rfl, fun name _ _ span hf hargs => R.keeps_call bound name span hf hargs⟩

/-- Running statements of the code keeps the regime, with any bound on the nesting of calls. -/
theorem keeps_run (R : Regime strict) (bound : Nat) (hscope : R.writable scope)
    (stmts : List Ast.Stmt) (hcode : ∀ stmt ∈ stmts, R.code (.stmt stmt)) :
    R.Keeps (Machine.run strict bound scope stmts) R.Ends :=
  keeps_execAll (R.keptBy_call bound) hscope stmts hcode

end Regime

end StructScript
