import StructScript.Proofs.Evaluation.Code

/-!
# Judgements about evaluation

A `Judgement` compares two computations, such as the evaluations of one expression under two sets
of rules, for all machines whose functions belong to some code. It is given by three closure
conditions: it holds of every step that leaves the running calls alone (`Eval.Quiet`), and it is
kept when computations are put in sequence and when their errors are placed. From these it holds of
the evaluation of all expressions and statements of the code, provided that it holds of the calls
that the code makes (`Judgement.Covers`):

* `Judgement.holds_eval` and `Judgement.holds_execAll`;
* `Judgement.holds_body`, for the body of a function in the scope of a call;
* `Judgement.holds_call_succ`, for a call, given the judgement of its body in the frame of the call.

A judgement about one computation compares it with itself.
-/

namespace StructScript

/-- Writing nothing leaves the output as it is. -/
theorem Output.write_empty (out : Output) : out.write "" = out := by
  cases out with
  | buffer text => simp [write]
  | silent => rfl

/-- The error is one of a step: no calls are recorded in it, and it is not about their number. -/
structure EvalError.OfStep (e : EvalError) : Prop where
  backtrace_eq : e.backtrace = none
  cause_ne : ∀ limit, e.cause ≠ .recursionLimitExceeded limit

/-- The result is not the error of a call that is nested too deep. -/
def EvalError.Cause.InLimit {α : Type} (x : Except EvalError.Cause α) : Prop :=
  ∀ limit, x ≠ .error (.recursionLimitExceeded limit)

open EvalError.Cause (InLimit)

/-! ### Literals, operators and places make no calls -/

namespace Value

/-- An integer that does not fit is an error of another sort. -/
theorem inLimit_ofInt (op : String) (n : Int) : InLimit (ofInt op n) := by
  intro limit h
  unfold ofInt at h
  split at h <;> cases h

/-- So is a literal without a value. -/
theorem inLimit_ofLiteral (kind : LiteralKind) (lexeme : String) :
    InLimit (ofLiteral kind lexeme) := by
  intro limit h
  unfold ofLiteral at h
  repeat' split at h
  all_goals cases h

/-- Prefix operators make no calls. -/
theorem inLimit_applyUnary (op : UnaryOp) (a : Value) : InLimit (applyUnary op a) := by
  intro limit h
  unfold applyUnary at h
  split at h
  case h_2 => exact inLimit_ofInt _ _ limit h
  all_goals cases h

/-- Nor do infix operators on integers. -/
theorem inLimit_applyInt (op : BinaryOp) (a b : Int) : InLimit (applyInt op a b) := by
  intro limit h
  unfold applyInt at h
  repeat' split at h
  all_goals first
    | exact inLimit_ofInt _ _ limit h
    | cases h

/-- Nor do infix operators on any values. -/
theorem inLimit_applyBinary (op : BinaryOp) (a b : Value) : InLimit (applyBinary op a b) := by
  intro limit h
  simp only [applyBinary] at h
  repeat' split at h
  case h_1 => exact inLimit_applyInt _ _ _ limit h
  all_goals cases h

/-- Setting a field makes no calls, by induction on the path to it. -/
theorem ofStep_of_setPath {v : Value} {e : EvalError} (path : List Ast.Ident) {target : Value}
    (h : target.setPath path v = .error e) : e.OfStep := by
  induction path generalizing target with
  | nil => cases h
  | cons field rest ih =>
      have hstep {cause : EvalError.Cause} (span : Span)
          (hcause : ∀ limit, cause ≠ .recursionLimitExceeded limit) :
          (EvalError.atSpan span cause).OfStep := ⟨rfl, hcause⟩
      unfold setPath at h
      split at h
      · split at h
        · repeat' split at h
          all_goals cases h <;> exact hstep field.span (by rintro limit ⟨⟩)
        · split at h
          · rename_i hinner
            cases h
            exact ih hinner
          · cases h
      · cases h
        refine hstep field.span ?_
        rintro limit ⟨⟩

end Value

/-- Nor does assigning to a variable. -/
theorem Store.ofStep_of_assignRoot {s : Store} {scope : ScopeId} {root : Ast.Ident} {v : Value}
    {e : EvalError} (h : s.assignRoot scope root v = .error e) : e.OfStep := by
  unfold assignRoot at h
  split at h <;> cases h <;> exact ⟨rfl, nofun⟩

/-- Nor does assigning to a place. -/
theorem Store.ofStep_of_assignPlace {s : Store} {scope : ScopeId} {target : Ast.Place} {v : Value}
    {e : EvalError} (h : s.assignPlace scope target v = .error e) : e.OfStep := by
  unfold assignPlace at h
  split at h
  · exact ofStep_of_assignRoot h
  · split at h
    · cases h
      exact ⟨rfl, nofun⟩
    · split at h
      · rename_i hset
        cases h
        exact Value.ofStep_of_setPath _ hset
      · exact ofStep_of_assignRoot h

namespace Closure

/-- Binding arguments to parameters makes no calls. -/
theorem inLimit_bindArguments (callee : String) :
    (pairs : List (Ast.Param × Value)) → InLimit (bindArguments callee pairs)
  | [] => nofun
  | (param, arg) :: rest => by
      intro limit h
      unfold bindArguments at h
      split at h
      · split at h
        · cases h
        · rename_i hrest
          cases h
          exact inLimit_bindArguments callee rest limit hrest
      · cases h

/-- Nor does checking their number and types. -/
theorem inLimit_checkArguments (callee : String) (f : Closure) (args : List Value) :
    InLimit (f.checkArguments callee args) := by
  intro limit h
  unfold checkArguments at h
  split at h
  · exact inLimit_bindArguments _ _ limit h
  · cases h

end Closure

namespace Eval

variable {α β : Type} {code : Ast.Part → Prop} {post : α → Prop}

/-- Nor does making a struct. -/
theorem inLimit_buildStruct (strict : Bool) (type : Ast.TypeExpr) (inst : Instantiation)
    (fields : NameMap Value) : InLimit (buildStruct strict type inst fields) := by
  intro limit h
  unfold buildStruct at h
  split at h <;> cases h

/-! ### Steps that leave the running calls alone -/

/-- The store alone decides the result of the step, the store that it leaves and the text that it
prints. With the functions in the store belonging to `code` this is so afterwards too, and a value
given is one of `post`. -/
def Quiet (code : Ast.Part → Prop) (m : Eval α) (post : α → Prop) : Prop :=
  ∀ store, ∃ r store' text,
    (∀ out calls, m ⟨store, out, calls⟩ = some (r, ⟨store', out.write text, calls⟩)) ∧
    (store.CodeIn code → store'.CodeIn code ∧ ∀ a, r = .ok a → post a) ∧
    ∀ e, r = .error e → e.OfStep

namespace Quiet

/-- A step that changes nothing. -/
theorem of_result {m : Eval α}
    (h : ∀ store, ∃ r, (∀ out calls, m ⟨store, out, calls⟩ = some (r, ⟨store, out, calls⟩)) ∧
      (store.CodeIn code → ∀ a, r = .ok a → post a) ∧ ∀ e, r = .error e → e.OfStep) :
    Quiet code m post := by
  intro store
  obtain ⟨r, hm, hpost, herror⟩ := h store
  refine ⟨r, store, "", fun out calls => ?_, fun hstore => ⟨hstore, hpost hstore⟩, herror⟩
  rw [Output.write_empty]
  exact hm out calls

/-- A step that changes the store and gives nothing. -/
theorem of_store {m : Eval Unit} (f : Store → Store)
    (hm : ∀ store out calls, m ⟨store, out, calls⟩ = some (.ok (), ⟨f store, out, calls⟩))
    (hf : ∀ store, store.CodeIn code → (f store).CodeIn code) :
    Quiet code m fun _ => True := by
  intro store
  refine ⟨.ok (), f store, "", fun out calls => ?_, fun hstore =>
    ⟨hf store hstore, fun _ _ => trivial⟩, nofun⟩
  rw [Output.write_empty]
  exact hm store out calls

/-- Giving a value leaves everything as it is. -/
theorem pure {a : α} (h : post a) : Quiet code (Pure.pure a) post :=
  of_result fun _ => ⟨.ok a, fun _ _ => rfl, fun _ b hb => by cases hb; exact h, nofun⟩

/-- So does failing at a place, if the limit of calls is not the cause. -/
theorem failAt (span : Span) {cause : EvalError.Cause}
    (h : ∀ limit, cause ≠ .recursionLimitExceeded limit) :
    Quiet code (Eval.failAt span cause) post :=
  of_result fun _ => ⟨_, fun _ _ => rfl, nofun, fun e he => by cases he; exact ⟨rfl, h⟩⟩

/-- So does a result without a place, if the limit is not the cause of its error. -/
theorem ofCause {x : Except EvalError.Cause α} (hok : ∀ a, x = .ok a → post a)
    (hlimit : InLimit x) : Quiet code (Eval.ofCause x) post := by
  refine of_result fun _ => ⟨_, fun _ _ => rfl, fun _ a ha => ?_, fun e he => ?_⟩
  · cases x with
    | error cause => cases ha
    | ok b =>
        cases ha
        exact hok _ rfl
  · cases x with
    | error cause =>
        cases he
        exact ⟨rfl, fun limit h => hlimit limit (congrArg _ h)⟩
    | ok b => cases he

/-- A variable that is read holds functions of the code, as all of the store does. -/
theorem lookup (scope : ScopeId) (name : Ast.Ident) :
    Quiet code (Eval.lookup scope name) (Value.CodeIn code) := by
  refine of_result fun store => ?_
  rcases h : store.lookupVariable scope name.name with _ | v
  · refine ⟨.error (.atSpan name.span (.undefinedVariable name.name)), fun out calls => ?_, nofun,
      fun e he => by cases he; exact ⟨rfl, nofun⟩⟩
    simp [Eval.lookup, Bounded.bind_apply, Bounded.state, h, Eval.failAt]
  · refine ⟨.ok v, fun out calls => ?_, fun hstore a ha => ?_, nofun⟩
    · simp [Eval.lookup, Bounded.bind_apply, Bounded.state, h]
    · cases ha
      exact hstore.lookupVariable h

/-- A cause that is given a place at once is an error at this place. -/
theorem locate_ofCause_error (span : Span) (cause : EvalError.Cause) (m : Machine) :
    Eval.locate span (Eval.ofCause (.error cause : Except EvalError.Cause α)) m =
      some (.error ((EvalError.ofCause cause).locate span), m) := rfl

/-- A value needs no place. -/
theorem locate_ofCause_ok (span : Span) (a : α) (m : Machine) :
    Eval.locate span (Eval.ofCause (.ok a)) m = some (.ok a, m) := rfl

/-- Looking a type up and giving it its arguments leaves the machine as it is. -/
theorem instantiate (scope : ScopeId) (type : Ast.TypeExpr) :
    Quiet code (Eval.instantiate scope type) fun _ => True := by
  refine of_result fun store => ?_
  rcases h : store.lookupType scope type.name.name with _ | template
  · refine ⟨.error (.atSpan type.span (.undefinedType type.name.name)), fun out calls => ?_, ?_, ?_⟩
    · simp [Eval.instantiate, Bounded.bind_apply, Bounded.state, h, Eval.failAt]
    · rintro - a ⟨⟩
    · rintro e ⟨⟩
      refine ⟨rfl, ?_⟩
      rintro limit ⟨⟩
  · rcases hinst : template.instantiate (TypeName.ofExpr type).args with cause | inst
    · refine ⟨.error ((EvalError.ofCause cause).locate type.span), fun out calls => ?_, ?_, ?_⟩
      · simp [Eval.instantiate, Bounded.bind_apply, Bounded.state, h, hinst, locate_ofCause_error]
      · rintro - a ⟨⟩
      · rintro e ⟨⟩
        unfold StructType.instantiate at hinst
        split at hinst
        · cases hinst
        · cases hinst
          refine ⟨rfl, ?_⟩
          rintro limit ⟨⟩
    · refine ⟨.ok inst, fun out calls => ?_, fun _ _ _ => trivial, ?_⟩
      · simp [Eval.instantiate, Bounded.bind_apply, Bounded.state, h, hinst, locate_ofCause_ok]
      · rintro e ⟨⟩

/-- A variable that is defined with a value of the code keeps the store to the code. -/
theorem define (scope : ScopeId) (name : String) {v : Value} (hv : v.CodeIn code) :
    Quiet code (Eval.define scope name v) fun _ => True :=
  of_store (fun s => s.defineVariable scope name v) (fun _ _ _ => rfl)
    fun _ hs => hs.defineVariable hv scope name

/-- Types hold no functions. -/
theorem defineType (scope : ScopeId) (name : String) (type : StructType) :
    Quiet code (Eval.defineType scope name type) fun _ => True :=
  of_store (fun s => s.defineType scope name type) (fun _ _ _ => rfl)
    fun _ hs => hs.defineType scope name type

/-- Printing leaves the store as it is. -/
theorem print (text : String) : Quiet code (Eval.print text) fun _ => True :=
  fun store => ⟨.ok (), store, text, fun _ _ => rfl, fun hs => ⟨hs, fun _ _ => trivial⟩, nofun⟩

/-- Assigning a value of the code keeps the store to the code. -/
theorem assignPlace (scope : ScopeId) (target : Ast.Place) {v : Value} (hv : v.CodeIn code) :
    Quiet code (Eval.assignPlace scope target v) fun _ => True := by
  intro store
  rcases h : store.assignPlace scope target v with e | store'
  · refine ⟨.error e, store, "", fun out calls => ?_, fun hs => ⟨hs, nofun⟩,
      fun e' he' => by cases he'; exact Store.ofStep_of_assignPlace h⟩
    simp [Eval.assignPlace, h, Output.write_empty]
  · refine ⟨.ok (), store', "", fun out calls => ?_,
      fun hs => ⟨hs.assignPlace hv h, fun _ _ => trivial⟩, nofun⟩
    simp [Eval.assignPlace, h, Output.write_empty]

/-- A new scope with values of the code keeps the store to the code. -/
theorem enterScope (parent : ScopeId) {bindings : List (String × Value)}
    (hb : ∀ b ∈ bindings, b.2.CodeIn code) :
    Quiet code (Eval.enterScope parent bindings) fun _ => True := by
  intro store
  let child := store.addChild parent
  refine ⟨.ok child.1, bindings.foldl (fun s b => s.defineVariable child.1 b.1 b.2) child.2, "",
    fun out calls => ?_, fun hs => ⟨?_, fun _ _ => trivial⟩, nofun⟩
  · rw [Output.write_empty]
    rfl
  · exact (hs.addChild parent).defineAll _ hb

/-- A struct of fields of the code holds functions of the code. -/
theorem buildStruct (strict : Bool) (type : Ast.TypeExpr) (inst : Instantiation)
    {fields : NameMap Value} (hfields : ∀ entry ∈ fields, entry.2.CodeIn code) :
    Quiet code (Eval.ofCause (Eval.buildStruct strict type inst fields)) (Value.CodeIn code) := by
  refine ofCause (fun v hv => ?_) (inLimit_buildStruct strict type inst fields)
  unfold Eval.buildStruct at hv
  split at hv
  · cases hv
  · cases hv
    exact Value.codeIn_struct_iff.mpr hfields

end Quiet

end Eval

open Eval (Quiet)

/-- A comparison of computations that is kept when they are put together. In `J.Holds m m' post`,
the values that both give are those of `post`. -/
structure Judgement where
  /-- The code that may come to run. -/
  code : Ast.Part → Prop
  code_child : ∀ {part whole : Ast.Part}, part.ChildOf whole → code whole → code part
  Holds : ∀ {α : Type}, Eval α → Eval α → (α → Prop) → Prop
  quiet : ∀ {α : Type} {m : Eval α} {post : α → Prop}, Quiet code m post → Holds m m post
  bind : ∀ {α β : Type} {m m' : Eval α} {f f' : α → Eval β} {post : α → Prop} {post' : β → Prop},
    Holds m m' post → (∀ a, post a → Holds (f a) (f' a) post') → Holds (m >>= f) (m' >>= f') post'
  locate : ∀ {α : Type} {m m' : Eval α} {post : α → Prop} (span : Span),
    Holds m m' post → Holds (Eval.locate span m) (Eval.locate span m') post

namespace Judgement

variable {J : Judgement} {α β : Type} {post : α → Prop} {post' : β → Prop}

/-- After a step that leaves the running calls alone. -/
theorem quiet_bind {m : Eval α} {f f' : α → Eval β} (hm : Quiet J.code m post)
    (hf : ∀ a, post a → J.Holds (f a) (f' a) post') : J.Holds (m >>= f) (m >>= f') post' :=
  J.bind (J.quiet hm) hf

/-- Giving a value, as a step that leaves the running calls alone. -/
theorem pure {a : α} (h : post a) : J.Holds (Pure.pure a) (Pure.pure a) post :=
  J.quiet (.pure h)

/-- The rules under which a judgement about code holds: it holds of their struct literals, and of
the calls that the code makes under them. -/
structure Covers (J : Judgement) (rules rules' : Rules) : Prop where
  build : ∀ (type : Ast.TypeExpr) (inst : Instantiation) {fields : NameMap Value},
    (∀ entry ∈ fields, entry.2.CodeIn J.code) →
    J.Holds (Eval.ofCause (Eval.buildStruct rules.strict type inst fields))
      (Eval.ofCause (Eval.buildStruct rules'.strict type inst fields)) (Value.CodeIn J.code)
  call : ∀ {callee : Ast.Place} {args : List Ast.Expr} {span : Span} {f : Closure}
    {values : List Value}, J.code (.expr ⟨.call callee args, span⟩) →
    J.code (.func f.definition) → (∀ v ∈ values, v.CodeIn J.code) →
    J.Holds (rules.call callee.written f values span) (rules'.call callee.written f values span)
      (Value.CodeIn J.code)

variable {rules rules' : Rules} {scope : ScopeId}

/-! ### Expressions -/

/-- Reading a place, by induction on it. -/
theorem holds_readPlace (scope : ScopeId) : (place : Ast.Place) →
    J.Holds (Eval.readPlace scope place) (Eval.readPlace scope place) (Value.CodeIn J.code)
  | .var name => J.quiet (.lookup scope name)
  | .field base name _ => by
      rw [Eval.readPlace]
      exact J.bind (holds_readPlace scope base) fun v hv => pure (hv.get name.name)

/-- Calling what a place holds: a built-in function, a function of the code, or no function. -/
theorem holds_callPlace (hrules : J.Covers rules rules') {callee : Ast.Place}
    {args : List Ast.Expr} {span : Span} (hcode : J.code (.expr ⟨.call callee args, span⟩))
    {values : List Value} (hvalues : ∀ v ∈ values, v.CodeIn J.code) :
    J.Holds (Eval.callPlace rules scope callee values span)
      (Eval.callPlace rules' scope callee values span) (Value.CodeIn J.code) := by
  unfold Eval.callPlace
  split
  · rename_i f _
    exact quiet_bind (.print (f.printed values)) fun _ _ => pure (Value.Plain.codeIn trivial)
  · refine J.bind (holds_readPlace scope callee) fun v hv => ?_
    split
    · exact hrules.call hcode (Value.codeIn_func_iff.mp hv) hvalues
    · exact J.quiet (.failAt _ nofun)

mutual

/-- The judgement holds of every expression of the code. -/
theorem holds_eval (hrules : J.Covers rules rules') (scope : ScopeId) :
    (e : Ast.Expr) → J.code (.expr e) →
      J.Holds (e.eval rules scope) (e.eval rules' scope) (Value.CodeIn J.code)
  | ⟨node, span⟩, hcode => by
      rw [Ast.Expr.eval, Ast.Expr.eval]
      exact J.locate span (holds_evalNode hrules scope span node hcode)

/-- Evaluating what an expression is, with one case for each kind. -/
theorem holds_evalNode (hrules : J.Covers rules rules') (scope : ScopeId) (span : Span) :
    (node : Ast.Node) → J.code (.expr ⟨node, span⟩) →
      J.Holds (node.eval rules scope span) (node.eval rules' scope span) (Value.CodeIn J.code)
  | .literal kind lexeme, _ => by
      rw [Ast.Node.eval, Ast.Node.eval]
      exact J.quiet (.ofCause (fun v hv => (Value.plain_of_ofLiteral hv).codeIn)
        (Value.inLimit_ofLiteral kind lexeme))
  | .place place, _ => by
      rw [Ast.Node.eval, Ast.Node.eval]
      exact holds_readPlace scope place
  | .struct type inits, hcode => by
      rw [Ast.Node.eval, Ast.Node.eval]
      refine quiet_bind (.instantiate scope type) fun inst _ => ?_
      have hinits : ∀ i ∈ inits, J.code (.init i) :=
        fun i hi => J.code_child (.init hi type span) hcode
      exact J.bind (holds_evalInits hrules scope type.name.name _ [] nofun inits hinits)
        fun fields hfields => hrules.build type inst hfields
  | .unary op operand, hcode => by
      rw [Ast.Node.eval, Ast.Node.eval]
      refine J.bind (holds_eval hrules scope operand (J.code_child (.operand ..) hcode))
        fun a _ => ?_
      exact J.quiet (.ofCause (fun v hv => (Value.plain_of_applyUnary hv).codeIn)
        (Value.inLimit_applyUnary op a))
  | .binary op left right, hcode => by
      rw [Ast.Node.eval, Ast.Node.eval]
      refine J.bind (holds_eval hrules scope left (J.code_child (.left ..) hcode)) fun a _ => ?_
      refine J.bind (holds_eval hrules scope right (J.code_child (.right ..) hcode)) fun b _ => ?_
      exact J.quiet (.ofCause (fun v hv => (Value.plain_of_applyBinary hv).codeIn)
        (Value.inLimit_applyBinary op a b))
  | .call callee args, hcode => by
      rw [Ast.Node.eval, Ast.Node.eval]
      have hargs : ∀ arg ∈ args, J.code (.expr arg) :=
        fun arg harg => J.code_child (.arg harg callee span) hcode
      exact J.bind (holds_evalArgs hrules scope args hargs)
        fun values hvalues => holds_callPlace hrules hcode hvalues
  | .func f, hcode => by
      rw [Ast.Node.eval, Ast.Node.eval]
      exact pure (Value.codeIn_func_iff.mpr (J.code_child (.func f span) hcode))

/-- Evaluating initialisers from left to right. -/
theorem holds_evalInits (hrules : J.Covers rules rules') (scope : ScopeId) (typeName : String)
    (declared : NameMap TypeName) (given : NameMap Value)
    (hgiven : ∀ entry ∈ given, entry.2.CodeIn J.code) :
    (inits : List Ast.FieldInit) → (∀ i ∈ inits, J.code (.init i)) →
      J.Holds (Ast.Node.evalInits rules scope typeName declared given inits)
        (Ast.Node.evalInits rules' scope typeName declared given inits)
        fun fields => ∀ entry ∈ fields, entry.2.CodeIn J.code
  | [], _ => by
      rw [Ast.Node.evalInits, Ast.Node.evalInits]
      exact pure hgiven
  | ⟨name, value, span⟩ :: rest, hcode => by
      obtain ⟨hfirst, hrest⟩ := List.forall_mem_cons.mp hcode
      rw [Ast.Node.evalInits, Ast.Node.evalInits]
      split
      · exact J.quiet (.failAt _ nofun)
      · have hvalue := J.code_child (.initValue ⟨name, value, span⟩) hfirst
        refine J.bind (holds_eval hrules scope value hvalue) fun v hv => ?_
        split
        · refine holds_evalInits hrules scope typeName declared _ (fun entry hentry => ?_) rest
            hrest
          rcases NameMap.mem_insert hentry with rfl | hentry
          · exact hv
          · exact hgiven entry hentry
        · exact J.quiet (.failAt _ nofun)

/-- Evaluating arguments from left to right. -/
theorem holds_evalArgs (hrules : J.Covers rules rules') (scope : ScopeId) :
    (args : List Ast.Expr) → (∀ arg ∈ args, J.code (.expr arg)) →
      J.Holds (Ast.Node.evalArgs rules scope args) (Ast.Node.evalArgs rules' scope args)
        fun values => ∀ v ∈ values, v.CodeIn J.code
  | [], _ => by
      rw [Ast.Node.evalArgs, Ast.Node.evalArgs]
      exact pure nofun
  | arg :: rest, hcode => by
      obtain ⟨hfirst, hrest⟩ := List.forall_mem_cons.mp hcode
      rw [Ast.Node.evalArgs, Ast.Node.evalArgs]
      refine J.bind (holds_eval hrules scope arg hfirst) fun v hv => ?_
      refine J.bind (holds_evalArgs hrules scope rest hrest) fun vs hvs => pure ?_
      exact List.forall_mem_cons.mpr ⟨hv, hvs⟩

end

/-! ### Statements and calls -/

/-- How statements may end: a returned value holds functions of the code only. -/
def Ends (J : Judgement) (outcome : Outcome) : Prop :=
  ∀ v, outcome.returned? = some v → v.CodeIn J.code

/-- Running a statement. -/
theorem holds_exec (hrules : J.Covers rules rules') (scope : ScopeId) (stmt : Ast.Stmt)
    (hcode : J.code (.stmt stmt)) :
    J.Holds (stmt.exec rules scope) (stmt.exec rules' scope) J.Ends := by
  have hcompleted : J.Ends .completed := nofun
  cases stmt with
  | typeDef name definition span =>
      rw [Ast.Stmt.exec, Ast.Stmt.exec]
      exact quiet_bind (.defineType scope _ _) fun _ _ => pure hcompleted
  | define target value span =>
      rw [Ast.Stmt.exec, Ast.Stmt.exec]
      refine J.bind (holds_eval hrules scope value (J.code_child (.defined ..) hcode))
        fun v hv => ?_
      exact quiet_bind (.define scope _ hv) fun _ _ => pure hcompleted
  | assign target value span =>
      rw [Ast.Stmt.exec, Ast.Stmt.exec]
      refine J.bind (holds_eval hrules scope value (J.code_child (.assigned ..) hcode))
        fun v hv => ?_
      exact J.bind (J.locate span (J.quiet (.assignPlace scope target hv))) fun _ _ =>
        pure hcompleted
  | ret value span =>
      cases value with
      | none =>
          rw [Ast.Stmt.exec, Ast.Stmt.exec]
          exact pure fun v hv => by cases hv; exact Value.Plain.codeIn trivial
      | some value =>
          rw [Ast.Stmt.exec, Ast.Stmt.exec]
          refine J.bind (holds_eval hrules scope value (J.code_child (.returned ..) hcode))
            fun v hv => pure ?_
          exact fun w hw => by cases hw; exact hv
  | expr e =>
      rw [Ast.Stmt.exec, Ast.Stmt.exec]
      exact J.bind (holds_eval hrules scope e (J.code_child (.statement e) hcode)) fun _ _ =>
        pure hcompleted

/-- The judgement holds of every list of statements of the code. -/
theorem holds_execAll (hrules : J.Covers rules rules') (scope : ScopeId) (stmts : List Ast.Stmt)
    (hcode : ∀ stmt ∈ stmts, J.code (.stmt stmt)) :
    J.Holds (Ast.Stmt.execAll rules scope stmts) (Ast.Stmt.execAll rules' scope stmts) J.Ends := by
  induction stmts with
  | nil => exact pure nofun
  | cons stmt rest ih =>
      obtain ⟨hfirst, hrest⟩ := List.forall_mem_cons.mp hcode
      rw [Ast.Stmt.execAll, Ast.Stmt.execAll]
      refine J.bind (holds_exec hrules scope stmt hfirst) fun outcome houtcome => ?_
      cases outcome with
      | completed => exact ih hrest
      | returned v => exact pure houtcome

end Judgement

/-- The body of a function in a new scope with the variables of a call. -/
def Closure.body (rules : Rules) (f : Closure) (bindings : List (String × Value)) :
    Eval Outcome := do
  let scope ← Eval.enterScope f.scope bindings
  Ast.Stmt.execAll rules scope f.definition.body

/-- A call checks its arguments and runs the body of the function in the frame of the call. -/
theorem Closure.call_succ (strict : Bool) (n : Nat) (name : String) (f : Closure)
    (args : List Value) (span : Span) :
    Closure.call strict (n + 1) name f args span = do
      let bindings ← Eval.ofCause (f.checkArguments name args)
      let outcome ← Eval.inFrame ⟨name, some span⟩ (f.body ⟨strict, Closure.call strict n⟩ bindings)
      return outcome.value := rfl

namespace Judgement

variable {J : Judgement} {rules rules' : Rules}

/-- The judgement holds of the body of a function of the code. -/
theorem holds_body (hrules : J.Covers rules rules') {f : Closure}
    (hf : J.code (.func f.definition)) {bindings : List (String × Value)}
    (hb : ∀ b ∈ bindings, b.2.CodeIn J.code) :
    J.Holds (f.body rules bindings) (f.body rules' bindings) J.Ends :=
  quiet_bind (.enterScope f.scope hb) fun scope _ =>
    holds_execAll hrules scope _ fun _ hstmt => J.code_child (.body hstmt) hf

/-- The judgement holds of a call, if it holds of the body in the frame of the call. -/
theorem holds_call_succ {strict strict' : Bool} {n n' : Nat} {name : String} {f : Closure}
    {args : List Value} {span : Span} (hargs : ∀ v ∈ args, v.CodeIn J.code)
    (hframe : ∀ bindings : List (String × Value), (∀ b ∈ bindings, b.2.CodeIn J.code) →
      J.Holds (Eval.inFrame ⟨name, some span⟩ (f.body ⟨strict, Closure.call strict n⟩ bindings))
        (Eval.inFrame ⟨name, some span⟩ (f.body ⟨strict', Closure.call strict' n'⟩ bindings))
        J.Ends) :
    J.Holds (Closure.call strict (n + 1) name f args span)
      (Closure.call strict' (n' + 1) name f args span) (Value.CodeIn J.code) := by
  rw [Closure.call_succ, Closure.call_succ]
  have hcheck : Quiet J.code (Eval.ofCause (f.checkArguments name args))
      fun bindings => ∀ b ∈ bindings, b.2.CodeIn J.code :=
    .ofCause (fun bindings h b hb => hargs _ (Closure.mem_of_checkArguments h hb))
      (Closure.inLimit_checkArguments name f args)
  refine quiet_bind hcheck fun bindings hbindings => ?_
  refine J.bind (hframe bindings hbindings) fun outcome houtcome => pure ?_
  cases outcome with
  | completed => exact Value.Plain.codeIn trivial
  | returned v => exact houtcome v rfl

end Judgement

end StructScript
