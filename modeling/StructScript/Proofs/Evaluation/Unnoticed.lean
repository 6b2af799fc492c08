import StructScript.Proofs.Evaluation.Frames
import StructScript.Proofs.Evaluation.Judgement
import StructScript.Proofs.Store.Update

/-!
# Changes of the store that code does not notice

A piece of code names the variables and the types that it looks up, sets or defines
(`Ast.Part.Names`). A change of the store that leaves alone what the code of a regime names, and the
scopes of its calls, is not noticed by it (`Regime.Unnoticed`): it may be made before the code is run
or after, with the same result, the same output and the same calls (`Regime.Blind`). The property is
carried through the syntax and, by induction on the bound on their nesting, through all calls.

Main results:

* `Regime.blindRules_call`;
* `Regime.blind_run`.
-/

namespace StructScript

/-- What a binding is found by: variables and types are looked up apart from each other. -/
inductive Key where
  | var (name : String)
  | type (name : String)
  deriving DecidableEq, Repr

/-- The piece of code itself looks up, sets or defines what goes by the key. The pieces that stand in
it are not counted, nor are parameters, which bind in a scope of their own. -/
inductive Ast.Part.Names : Ast.Part → Key → Prop where
  | place (p : Ast.Place) (span : Span) : Names (.expr ⟨.place p, span⟩) (.var p.root.name)
  | callee (callee : Ast.Place) (args : List Ast.Expr) (span : Span) :
      Names (.expr ⟨.call callee args, span⟩) (.var callee.root.name)
  | struct (type : Ast.TypeExpr) (inits : List Ast.FieldInit) (span : Span) :
      Names (.expr ⟨.struct type inits, span⟩) (.type type.name.name)
  | define (target : Ast.Place) (value : Ast.Expr) (span : Span) :
      Names (.stmt (.define target value span)) (.var target.root.name)
  | assign (target : Ast.Place) (value : Ast.Expr) (span : Span) :
      Names (.stmt (.assign target value span)) (.var target.root.name)
  | typeDef (type : Ast.TypeExpr) (definition : Ast.StructDef) (span : Span) :
      Names (.stmt (.typeDef type definition span)) (.type type.name.name)

/-- The machine with its store changed. -/
def Machine.mapStore (φ : Store → Store) (m : Machine) : Machine := { m with store := φ m.store }

namespace Regime

variable {strict : Bool} {α β : Type}

/-- The change leaves alone what the code of the regime names and the scopes of its calls. -/
structure Unnoticed (R : Regime strict) (φ : Store → Store) : Prop where
  binder? : ∀ {s : Store} {part : Ast.Part} {name : String}, R.store s → R.code part →
    part.Names (.var name) → ∀ id, (φ s).binder? id name = s.binder? id name
  lookupType : ∀ {s : Store} {part : Ast.Part} {name : String}, R.store s → R.code part →
    part.Names (.type name) → ∀ id, (φ s).lookupType id name = s.lookupType id name
  defineVariable : ∀ {s : Store} {part : Ast.Part} {name : String}, R.store s → R.code part →
    part.Names (.var name) →
      ∀ id v, (φ s).defineVariable id name v = φ (s.defineVariable id name v)
  defineType : ∀ {s : Store} {part : Ast.Part} {name : String}, R.store s → R.code part →
    part.Names (.type name) →
      ∀ id type, (φ s).defineType id name type = φ (s.defineType id name type)
  /-- The scope of a call, with its variables, is made before the change or after. -/
  enter : ∀ {s : Store} {f : Closure}, R.store s → R.value (.func f) → ∀ bindings,
    ((φ s).addChild f.scope).1 = (s.addChild f.scope).1 ∧
      ((φ s).addChild f.scope).2.defineAll (s.addChild f.scope).1 bindings =
        φ ((s.addChild f.scope).2.defineAll (s.addChild f.scope).1 bindings)

/-- From a machine of the regime and from the changed one the computation ends alike, in a machine
and in the changed one. -/
def Blind (R : Regime strict) (φ : Store → Store) (m : Eval α) : Prop :=
  ∀ s : Machine, R.store s.store →
    m (s.mapStore φ) = (m s).map fun x => (x.1, x.2.mapStore φ)

variable {R : Regime strict} {φ : Store → Store} {post : α → Prop}

/-! ### Putting computations together -/

namespace Blind

/-- Giving a value does not look at the store. -/
theorem pure (a : α) : R.Blind φ (Pure.pure a) := fun _ _ => rfl

/-- Nor does failing. -/
theorem fail (e : EvalError) : R.Blind φ (Bounded.fail e : Eval α) := fun _ _ => rfl

/-- Nor does a result without a place. -/
theorem ofCause (x : Except EvalError.Cause α) : R.Blind φ (Eval.ofCause x) := fun _ _ => rfl

/-- Nor does having no bound left. -/
theorem exhausted : R.Blind φ (Bounded.exhausted : Eval α) := fun _ _ => rfl

/-- The second computation starts from a machine of the regime because the first keeps it. -/
theorem bind {m : Eval α} {f : α → Eval β} (hm : R.Blind φ m) (hkeeps : R.Keeps m post)
    (hf : ∀ a, post a → R.Blind φ (f a)) : R.Blind φ (m >>= f) := by
  intro s hs
  rw [Bounded.bind_apply, Bounded.bind_apply, hm s hs]
  rcases h : m s with _ | ⟨e | a, t⟩
  · rfl
  · rfl
  · obtain ⟨ht, hpost⟩ := hkeeps s _ t hs h
    exact hf a (hpost a rfl) t ht

/-- What goes on from the state does not tell it from the changed one. -/
theorem state {f : Machine → Eval α}
    (hf : ∀ s, R.store s.store → f (s.mapStore φ) = f s ∧ R.Blind φ (f s)) :
    R.Blind φ (Bounded.state >>= f) := by
  intro s hs
  obtain ⟨hsame, hblind⟩ := hf s hs
  change f (s.mapStore φ) (s.mapStore φ) = _
  rw [hsame]
  exact hblind s hs

/-- Giving an error its place does not look at the store. -/
theorem locate {m : Eval α} (hm : R.Blind φ m) (span : Span) :
    R.Blind φ (Eval.locate span m) := by
  intro s hs
  rw [Eval.locate, Bounded.mapError, Bounded.mapError, hm s hs]
  rcases m s with _ | ⟨e | a, t⟩ <;> rfl

/-- The frame of a call is no part of the store. -/
theorem inFrame {body : Eval α} (h : R.Blind φ body) (frame : Frame) :
    R.Blind φ (Eval.inFrame frame body) := by
  intro s hs
  rcases s.calls.hasRoom_or_full with hroom | ⟨limit, hfull⟩
  · have hroom' : (s.mapStore φ).calls.HasRoom := hroom
    rw [Eval.inFrame_of_hasRoom hroom, Eval.inFrame_of_hasRoom hroom']
    have hbody := h (s.enter frame) hs
    change (body ((s.enter frame).mapStore φ)).map Eval.leave = _
    rw [hbody]
    rcases body (s.enter frame) with _ | x <;> rfl
  · have hfull' : (s.mapStore φ).calls.Full limit := hfull
    rw [Eval.inFrame_of_full hfull, Eval.inFrame_of_full hfull']
    rfl

end Blind

/-! ### The basic steps of the machine -/

section

variable {scope : ScopeId} (hφ : R.Unnoticed φ)
include hφ

/-- Reading a place whose variable the code names, by induction on the place. -/
theorem blind_readPlace {part : Ast.Part} {place : Ast.Place} (hcode : R.code part)
    (hname : part.Names (.var place.root.name)) (scope : ScopeId) :
    R.Blind φ (Eval.readPlace scope place) := by
  intro s hs
  have hread : (φ s.store).readPlace scope place = s.store.readPlace scope place := by
    simp only [Store.readPlace, Store.lookupVariable_eq, hφ.binder? hs hcode hname]
  rw [Store.readPlace_apply, Store.readPlace_apply]
  exact congrArg (fun r => some (r, _)) hread

/-- Defining a variable that the code names. -/
theorem blind_define {part : Ast.Part} {name : String} (hcode : R.code part)
    (hname : part.Names (.var name)) (scope : ScopeId) (v : Value) :
    R.Blind φ (Eval.define scope name v) := fun s hs =>
  congrArg (fun t => some (Except.ok (), Machine.mk t s.output s.calls))
    (hφ.defineVariable hs hcode hname scope v)

/-- Defining a type that the code names. -/
theorem blind_defineType {part : Ast.Part} {name : String} (hcode : R.code part)
    (hname : part.Names (.type name)) (scope : ScopeId) (type : StructType) :
    R.Blind φ (Eval.defineType scope name type) := fun s hs =>
  congrArg (fun t => some (Except.ok (), Machine.mk t s.output s.calls))
    (hφ.defineType hs hcode hname scope type)

/-- Making the scope of a call. -/
theorem blind_enterScope {f : Closure} (hf : R.value (.func f)) (bindings : List (String × Value)) :
    R.Blind φ (Eval.enterScope f.scope bindings) := by
  intro s hs
  obtain ⟨hid, hstore⟩ := hφ.enter hs hf bindings
  have hid' : ((s.mapStore φ).store.addChild f.scope).1 = (s.store.addChild f.scope).1 := hid
  rw [Eval.enterScope_apply, Eval.enterScope_apply, hid']
  exact congrArg (fun t => some (Except.ok _, Machine.mk t s.output s.calls)) hstore

/-- Looking up a type that the code names. -/
theorem blind_instantiate {part : Ast.Part} {type : Ast.TypeExpr} (hcode : R.code part)
    (hname : part.Names (.type type.name.name)) (scope : ScopeId) :
    R.Blind φ (Eval.instantiate scope type) := by
  refine Blind.state fun s hs => ?_
  have hlookup : (s.mapStore φ).store.lookupType scope type.name.name =
      s.store.lookupType scope type.name.name := hφ.lookupType hs hcode hname scope
  rw [hlookup]
  cases s.store.lookupType scope type.name.name with
  | none => exact ⟨rfl, .fail _⟩
  | some template => exact ⟨rfl, (Blind.ofCause _).locate _⟩

/-- Assigning to a place whose variable the code names. -/
theorem blind_assignPlace {part : Ast.Part} {target : Ast.Place} (hcode : R.code part)
    (hname : part.Names (.var target.root.name)) (scope : ScopeId) (v : Value) :
    R.Blind φ (Eval.assignPlace scope target v) := by
  intro s hs
  have hassign : (φ s.store).assignPlace scope target v =
      (s.store.assignPlace scope target v).map φ := by
    rw [Store.assignPlace_eq, Store.assignPlace_eq, hφ.binder? hs hcode hname]
    rcases s.store.binder? scope target.root.name with _ | ⟨binder, old⟩
    · rfl
    · dsimp only
      cases old.setPath target.path v with
      | error e => rfl
      | ok new =>
          dsimp only
          rw [hφ.defineVariable hs hcode hname, apply_ite (Except.map φ)]
          rfl
  have hassign' : (s.mapStore φ).store.assignPlace scope target v = _ := hassign
  rw [Eval.assignPlace, Eval.assignPlace, hassign']
  cases s.store.assignPlace scope target v <;> rfl

end

/-- Printing does not look at the store. -/
theorem blind_print (text : String) : R.Blind φ (Eval.print text) := fun _ _ => rfl

/-! ### Expressions and statements -/

/-- Rules that keep the regime and under which calls do not notice the change. -/
structure BlindRules (R : Regime strict) (φ : Store → Store) (rules : Rules) : Prop
    extends R.KeptBy rules where
  unnoticed : R.Unnoticed φ
  blind_call : ∀ (name : String) {f : Closure} {args : List Value} (span : Span),
    R.value (.func f) → (∀ v ∈ args, R.value v) → R.Blind φ (rules.call name f args span)

variable {rules : Rules} {scope : ScopeId}

/-- Calling what a place holds, where the code names its variable. -/
theorem blind_callPlace (h : R.BlindRules φ rules) (hscope : R.readable scope) {part : Ast.Part}
    {callee : Ast.Place} (hcode : R.code part) (hname : part.Names (.var callee.root.name))
    {args : List Value} (hargs : ∀ v ∈ args, R.value v) (span : Span) :
    R.Blind φ (Eval.callPlace rules scope callee args span) := by
  unfold Eval.callPlace
  split
  · exact (blind_print _).bind (keeps_print _) fun _ _ => .pure _
  · refine (blind_readPlace h.unnoticed hcode hname scope).bind (keeps_readPlace hscope callee)
      fun v hv => ?_
    split
    · exact h.blind_call _ span hv hargs
    · exact .fail _

mutual

/-- Evaluating an expression of the code. -/
theorem blind_eval (h : R.BlindRules φ rules) (hscope : R.readable scope) : (e : Ast.Expr) →
    R.code (.expr e) → R.Blind φ (e.eval rules scope)
  | ⟨node, span⟩, hcode => by
      rw [Ast.Expr.eval]
      exact (blind_evalNode h hscope span node hcode).locate span

/-- Evaluating what an expression is, with one case for each kind. -/
theorem blind_evalNode (h : R.BlindRules φ rules) (hscope : R.readable scope) (span : Span) :
    (node : Ast.Node) → R.code (.expr ⟨node, span⟩) → R.Blind φ (node.eval rules scope span)
  | .literal kind lexeme, _ => by
      rw [Ast.Node.eval]
      exact .ofCause _
  | .place place, hcode => by
      rw [Ast.Node.eval]
      exact blind_readPlace h.unnoticed hcode (.place place span) scope
  | .struct type inits, hcode => by
      rw [Ast.Node.eval]
      have hinits : ∀ i ∈ inits, R.code (.init i) :=
        fun _ hi => R.code_child (.init hi type span) hcode
      refine (blind_instantiate h.unnoticed hcode (.struct type inits span) scope).bind
        (keeps_instantiate hscope hcode) fun inst _ => ?_
      have hnone : R.Given inst.type.fields [] := .none _
      exact (blind_evalInits h hscope type.name.name hnone inits hinits).bind
        (keeps_evalInits h.toKeptBy hscope type.name.name hnone inits hinits)
        fun fields _ => .ofCause _
  | .unary op operand, hcode => by
      rw [Ast.Node.eval]
      have hoperand := R.code_child (.operand ..) hcode
      exact (blind_eval h hscope operand hoperand).bind
        (keeps_eval h.toKeptBy hscope operand hoperand) fun _ _ => .ofCause _
  | .binary op left right, hcode => by
      rw [Ast.Node.eval]
      have hleft := R.code_child (.left ..) hcode
      have hright := R.code_child (.right ..) hcode
      refine (blind_eval h hscope left hleft).bind (keeps_eval h.toKeptBy hscope left hleft)
        fun _ _ => ?_
      exact (blind_eval h hscope right hright).bind (keeps_eval h.toKeptBy hscope right hright)
        fun _ _ => .ofCause _
  | .call callee args, hcode => by
      rw [Ast.Node.eval]
      have hargs : ∀ e ∈ args, R.code (.expr e) :=
        fun _ he => R.code_child (.arg he callee span) hcode
      refine (blind_evalArgs h hscope args hargs).bind (keeps_evalArgs h.toKeptBy hscope args hargs)
        fun values hvalues => ?_
      exact blind_callPlace h hscope hcode (.callee callee args span) hvalues span
  | .func f, _ => by
      rw [Ast.Node.eval]
      exact .pure _

/-- Evaluating initialisers from left to right. -/
theorem blind_evalInits (h : R.BlindRules φ rules) (hscope : R.readable scope) (typeName : String)
    {declared : NameMap TypeName} {given : NameMap Value} (hgiven : R.Given declared given) :
    (inits : List Ast.FieldInit) → (∀ i ∈ inits, R.code (.init i)) →
      R.Blind φ (Ast.Node.evalInits rules scope typeName declared given inits)
  | [], _ => by
      rw [Ast.Node.evalInits]
      exact .pure _
  | ⟨name, value, span⟩ :: rest, hcode => by
      obtain ⟨hinit, hrest⟩ := List.forall_mem_cons.mp hcode
      rw [Ast.Node.evalInits]
      split
      · exact .fail _
      · rename_i type hdeclared
        have hvalue := R.code_child (.initValue ⟨name, value, span⟩) hinit
        refine (blind_eval h hscope value hvalue).bind (keeps_eval h.toKeptBy hscope value hvalue)
          fun v hv => ?_
        split
        · rename_i htype
          exact blind_evalInits h hscope typeName (hgiven.insert hv hdeclared htype) rest hrest
        · exact .fail _

/-- Evaluating arguments from left to right. -/
theorem blind_evalArgs (h : R.BlindRules φ rules) (hscope : R.readable scope) :
    (args : List Ast.Expr) → (∀ e ∈ args, R.code (.expr e)) →
      R.Blind φ (Ast.Node.evalArgs rules scope args)
  | [], _ => by
      rw [Ast.Node.evalArgs]
      exact .pure _
  | arg :: rest, hcode => by
      obtain ⟨harg, hrest⟩ := List.forall_mem_cons.mp hcode
      rw [Ast.Node.evalArgs]
      refine (blind_eval h hscope arg harg).bind (keeps_eval h.toKeptBy hscope arg harg)
        fun v _ => ?_
      exact (blind_evalArgs h hscope rest hrest).bind (keeps_evalArgs h.toKeptBy hscope rest hrest)
        fun _ _ => .pure _

end

/-- Running a statement of the code. -/
theorem blind_exec (h : R.BlindRules φ rules) (hscope : R.writable scope) (stmt : Ast.Stmt)
    (hcode : R.code (.stmt stmt)) : R.Blind φ (stmt.exec rules scope) := by
  have hreadable := R.readable_of_writable hscope
  have heval (e : Ast.Expr) (he : R.code (.expr e)) := blind_eval h hreadable e he
  cases stmt with
  | typeDef name definition span =>
      rw [Ast.Stmt.exec]
      exact (blind_defineType h.unnoticed hcode (.typeDef name definition span) scope _).bind
        (keeps_defineType hscope hcode) fun _ _ => .pure _
  | define target value span =>
      rw [Ast.Stmt.exec]
      have hvalue := R.code_child (.defined ..) hcode
      refine (heval value hvalue).bind (keeps_eval h.toKeptBy hreadable value hvalue) fun v hv => ?_
      exact (blind_define h.unnoticed hcode (.define target value span) scope v).bind
        (keeps_define hscope _ hv) fun _ _ => .pure _
  | assign target value span =>
      rw [Ast.Stmt.exec]
      have hvalue := R.code_child (.assigned ..) hcode
      refine (heval value hvalue).bind (keeps_eval h.toKeptBy hreadable value hvalue) fun v hv => ?_
      have hassign := blind_assignPlace h.unnoticed hcode (.assign target value span) scope v
      exact (hassign.locate span).bind ((keeps_assignPlace hreadable target hv).locate span)
        fun _ _ => .pure _
  | ret value span =>
      cases value with
      | none =>
          rw [Ast.Stmt.exec]
          exact .pure _
      | some value =>
          rw [Ast.Stmt.exec]
          have hvalue := R.code_child (.returned ..) hcode
          exact (heval value hvalue).bind (keeps_eval h.toKeptBy hreadable value hvalue)
            fun _ _ => .pure _
  | expr e =>
      rw [Ast.Stmt.exec]
      have he := R.code_child (.statement e) hcode
      exact (heval e he).bind (keeps_eval h.toKeptBy hreadable e he) fun _ _ => .pure _

/-- Running statements in turn, up to a return. -/
theorem blind_execAll (h : R.BlindRules φ rules) (hscope : R.writable scope) (stmts : List Ast.Stmt)
    (hcode : ∀ stmt ∈ stmts, R.code (.stmt stmt)) :
    R.Blind φ (Ast.Stmt.execAll rules scope stmts) := by
  induction stmts with
  | nil => exact .pure _
  | cons stmt rest ih =>
      obtain ⟨hfirst, hrest⟩ := List.forall_mem_cons.mp hcode
      rw [Ast.Stmt.execAll]
      refine (blind_exec h hscope stmt hfirst).bind
        (keeps_exec h.toKeptBy hscope stmt hfirst) fun outcome _ => ?_
      cases outcome with
      | completed => exact ih hrest
      | returned v => exact .pure _

/-! ### Calls and runs -/

/-- Calls do not notice the change, however deep they are nested. -/
theorem blindRules_call (hφ : R.Unnoticed φ) (n : Nat) :
    R.BlindRules φ ⟨strict, Closure.call strict n⟩ := by
  induction n with
  | zero => exact ⟨R.keptBy_call 0, hφ, fun _ _ _ _ _ _ => .exhausted⟩
  | succ n ih =>
      refine ⟨R.keptBy_call (n + 1), hφ, fun name f args span hf hargs => ?_⟩
      have hcheck : R.Keeps (Eval.ofCause (f.checkArguments name args))
          fun bindings => ∀ b ∈ bindings, R.value b.2 :=
        Keeps.ofCause fun bindings h b hb => hargs _ (Closure.mem_of_checkArguments h hb)
      have hcode : ∀ stmt ∈ f.definition.body, R.code (.stmt stmt) :=
        fun _ h => R.code_child (.body h) (R.code_func hf)
      change R.Blind φ (Closure.call strict (n + 1) name f args span)
      rw [Closure.call_succ]
      refine (Blind.ofCause _).bind hcheck fun bindings hb => ?_
      have hbody : R.Blind φ (f.body ⟨strict, Closure.call strict n⟩ bindings) :=
        (blind_enterScope hφ hf bindings).bind (keeps_enterScope hf hb) fun scope hscope =>
          blind_execAll ih hscope f.definition.body hcode
      have hkeeps : R.Keeps (f.body ⟨strict, Closure.call strict n⟩ bindings) R.Ends :=
        (keeps_enterScope hf hb).bind fun scope hscope =>
          keeps_execAll ih.toKeptBy hscope f.definition.body hcode
      exact (hbody.inFrame _).bind (keeps_inFrame hkeeps _) fun _ _ => .pure _

/-- **Running code does not notice the change.** -/
theorem blind_run (hφ : R.Unnoticed φ) (bound : Nat) (hscope : R.writable scope)
    (stmts : List Ast.Stmt) (hcode : ∀ stmt ∈ stmts, R.code (.stmt stmt)) :
    R.Blind φ (Machine.run strict bound scope stmts) :=
  blind_execAll (blindRules_call hφ bound) hscope stmts hcode

end Regime

end StructScript
