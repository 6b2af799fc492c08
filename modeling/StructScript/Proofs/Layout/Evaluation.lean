import StructScript.Proofs.Evaluation.Judgement
import StructScript.Proofs.Layout.State

/-!
# Evaluation does not depend on positions or on the numbers of source texts

Each step of an evaluation commutes with relocation, and so does all that is made of them: from a
relocated machine a relocated program ends as the program does, with the value, the error and the
machine relocated. What a call does is assumed to commute (`Rules.Commute`) and shown to by
induction on the bound on the nesting of calls.

Main results:

* `Closure.commutes_call`;
* `Machine.commutes_run`.
-/

namespace StructScript

open Bounded (Commutes)

variable {g : Relocation}

/-! ### Operators and literals -/

namespace Value

/-- A result that is a value without parts, or a cause, is its own image. -/
theorem relocate_eq_of_plain {x : Except EvalError.Cause Value}
    (h : ∀ v, x = .ok v → v.Plain) : relocate g x = x := by
  cases x with
  | error cause => rfl
  | ok v => exact congrArg Except.ok ((h v rfl).relocate_eq g)

/-- A prefix operator applied to a relocated value. -/
theorem applyUnary_relocate (op : UnaryOp) (a : Value) :
    applyUnary op (relocate g a) = relocate g (applyUnary op a) := by
  rw [relocate_eq_of_plain fun v hv => plain_of_applyUnary hv]
  cases a with
  | struct record =>
      rw [relocate_struct]
      cases op <;> rfl
  | func f => cases op <;> rfl
  | _ => rfl

/-- Relocation makes no value into one with parts, and none into one without. -/
theorem plain_relocate_iff {v : Value} : (relocate g v).Plain ↔ v.Plain := by
  cases v with
  | struct record =>
      rw [relocate_struct]
      exact Iff.rfl
  | _ => exact Iff.rfl

/-- An infix operator applied to relocated values. Only values without parts have one, so that
nothing is relocated but the names of the types in an error. -/
theorem applyBinary_relocate (op : BinaryOp) (a b : Value) :
    applyBinary op (relocate g a) (relocate g b) = relocate g (applyBinary op a b) := by
  rw [relocate_eq_of_plain fun v hv => plain_of_applyBinary hv]
  by_cases h : a.Plain ∧ b.Plain
  · rw [h.1.relocate_eq, h.2.relocate_eq]
  · have hparts : ¬ a.Plain ∨ ¬ b.Plain := Classical.not_and_iff_not_or_not.mp h
    have hparts' : ¬ (relocate g a).Plain ∨ ¬ (relocate g b).Plain := by
      rwa [plain_relocate_iff, plain_relocate_iff]
    rw [applyBinary_of_not_plain op hparts, applyBinary_of_not_plain op hparts',
      typeName_relocate, typeName_relocate]

end Value

/-! ### Assigning to places -/

/-- Setting a field inside a relocated value, by induction on the path to the field. -/
theorem Value.setPath_relocate (path : List Ast.Ident) (target v : Value) :
    (relocate g target).setPath (relocate g path) (relocate g v) =
      relocate g (target.setPath path v) := by
  induction path generalizing target with
  | nil => rfl
  | cons field rest ih =>
      cases target with
      | struct record =>
          rw [relocate_struct, relocate_cons]
          cases rest with
          | nil =>
              simp only [setPath, relocate_nil, fieldTypes_relocate, fields_relocate,
                typeName_relocate, Ast.Ident.name_relocate]
              split
              · rfl
              · split
                · exact congrArg Except.ok (insert_relocate g record field.name v)
                · rfl
          | cons next rest =>
              have hinner : (NameMap.find? (relocate g record.fields) field.name).getD nil =
                  relocate g ((NameMap.find? record.fields field.name).getD nil) := by
                rw [NameMap.find?_relocate]
                cases NameMap.find? record.fields field.name <;> rfl
              simp only [setPath, relocate_cons, fields_relocate, Ast.Ident.name_relocate, hinner]
              rw [← relocate_cons, ih]
              rcases ((NameMap.find? record.fields field.name).getD nil).setPath (next :: rest) v
                with e | inner
              · rfl
              · exact congrArg Except.ok (insert_relocate g record field.name inner)
      | _ => rfl

/-- Assigning to a variable of a relocated store. -/
theorem Store.assignRoot_relocate (s : Store) (scope : ScopeId) (root : Ast.Ident) (v : Value) :
    (relocate g s).assignRoot scope (relocate g root) (relocate g v) =
      relocate g (s.assignRoot scope root v) := by
  simp only [assignRoot, Ast.Ident.name_relocate, assign_relocate]
  rcases s.assign scope root.name v with (_ | _) | _ <;> rfl

/-- Assigning to a place of a relocated store. -/
theorem Store.assignPlace_relocate (s : Store) (scope : ScopeId) (target : Ast.Place) (v : Value) :
    (relocate g s).assignPlace scope (relocate g target) (relocate g v) =
      relocate g (s.assignPlace scope target v) := by
  cases target with
  | var name => exact assignRoot_relocate s scope name v
  | field base name span =>
      have hroot := Ast.Place.root_relocate g (.field base name span)
      have hpath := Ast.Place.path_relocate g (.field base name span)
      rw [Ast.Place.relocate_field] at hroot hpath ⊢
      simp only [assignPlace, hroot, hpath, Ast.Ident.name_relocate, lookupVariable_relocate]
      rcases s.lookupVariable scope (Ast.Place.field base name span).root.name with _ | current
      · rfl
      · simp only [relocate_some, Value.setPath_relocate]
        cases current.setPath (Ast.Place.field base name span).path v with
        | error e => rfl
        | ok new => exact assignRoot_relocate s scope _ new

namespace Eval

variable {α : Type} [Relocatable α]

/-! ### The basic steps -/

/-- A result without a place commutes if the results correspond. -/
theorem commutes_ofCause {x x' : Except EvalError.Cause α} (h : x' = relocate g x) :
    Commutes g (ofCause x) (ofCause x') := by
  subst h
  cases x <;> exact fun _ => rfl

/-- Giving an error its place commutes with relocating both. -/
theorem commutes_locate (span : Span) {m m' : Eval α} (h : Commutes g m m') :
    Commutes g (locate span m) (locate (relocate g span) m') :=
  .mapError h (EvalError.locate_relocate g span)

/-- Reading a variable. -/
theorem commutes_lookup (scope : ScopeId) (name : Ast.Ident) :
    Commutes g (lookup scope name) (lookup scope (relocate g name)) := by
  refine .bind .state fun m => ?_
  have hlookup : (relocate g m).store.lookupVariable scope (relocate g name).name =
      relocate g (m.store.lookupVariable scope name.name) :=
    Store.lookupVariable_relocate g m.store scope name.name
  rw [hlookup]
  cases m.store.lookupVariable scope name.name with
  | none => exact .fail rfl
  | some v => exact .pure rfl

/-- Defining a variable. -/
theorem commutes_define (scope : ScopeId) (name : String) (v : Value) :
    Commutes g (define scope name v) (define scope name (relocate g v)) :=
  .modifyState fun m => congrArg (Machine.mk · m.output (relocate g m.calls))
    (Store.defineVariable_relocate g m.store scope name v)

/-- Defining a type, which holds no position. -/
theorem commutes_defineType (scope : ScopeId) (name : String) (type : StructType) :
    Commutes g (defineType scope name type) (defineType scope name type) :=
  .modifyState fun m => congrArg (Machine.mk · m.output (relocate g m.calls))
    (Store.defineType_relocate g m.store scope name type)

/-- Printing does not depend on positions. -/
theorem commutes_print (text : String) : Commutes g (print text) (print text) :=
  .modifyState fun _ => rfl

/-- Opening a scope with some variables. -/
theorem commutes_enterScope (parent : ScopeId) (bindings : List (String × Value)) :
    Commutes g (enterScope parent bindings) (enterScope parent (relocate g bindings)) := by
  intro m
  have hchild : (relocate g m).store.addChild parent = relocate g (m.store.addChild parent) :=
    Store.addChild_relocate g m.store parent
  have hbind := Store.defineAll_relocate g (m.store.addChild parent).1 bindings
    (m.store.addChild parent).2
  rw [enterScope_apply, enterScope_apply, hchild]
  exact congrArg (fun s => some (Except.ok (m.store.addChild parent).1,
    Machine.mk s m.output (relocate g m.calls))) hbind

/-- Leaving a call records its frames, wherever these were called, and drops the last of them. -/
theorem leave_relocate (x : Except EvalError α × Machine) :
    leave (relocate g x) = relocate g (leave x) := by
  obtain ⟨e | a, store, output, calls⟩ := x
  · have htrace := EvalError.trace_relocate g calls.frames e
    have hpop := CallStack.pop_relocate g calls
    change (Except.error ((relocate g e).trace (relocate g calls.frames)),
      Machine.mk (relocate g store) output (relocate g calls).pop) = _
    rw [htrace, hpop]
    rfl
  · have hpop := CallStack.pop_relocate g calls
    change (Except.ok (relocate g a),
      Machine.mk (relocate g store) output (relocate g calls).pop) = _
    rw [hpop]
    rfl

/-- A call, which fails where no more calls may run: positions do not count against the limit. -/
theorem commutes_inFrame (frame : Frame) {body body' : Eval α} (h : Commutes g body body') :
    Commutes g (inFrame frame body) (inFrame (relocate g frame) body') := by
  intro m
  rcases m.calls.hasRoom_or_full with hroom | ⟨limit, hfull⟩
  · have hroom' : (relocate g m).calls.HasRoom := hroom.relocate g
    rw [inFrame_of_hasRoom hroom, inFrame_of_hasRoom hroom']
    change (body' (relocate g (m.enter frame))).map leave = _
    rw [h (m.enter frame)]
    rcases body (m.enter frame) with _ | x
    · rfl
    · exact congrArg some (leave_relocate x)
  · have hfull' : (relocate g m).calls.Full limit := hfull.relocate g
    rw [inFrame_of_full hfull, inFrame_of_full hfull']
    rfl

/-- Looking a type up and giving it its arguments. -/
theorem commutes_instantiate (scope : ScopeId) (type : Ast.TypeExpr) :
    Commutes g (instantiate scope type) (instantiate scope (relocate g type)) := by
  refine .bind .state fun m => ?_
  have hlookup : (relocate g m).store.lookupType scope type.name.name =
      m.store.lookupType scope type.name.name :=
    Store.lookupType_relocate g m.store scope type.name.name
  simp only [Ast.TypeExpr.name_relocate, Ast.Ident.name_relocate, Ast.TypeExpr.span_relocate,
    TypeName.ofExpr_relocate]
  rw [hlookup]
  rcases m.store.lookupType scope type.name.name with _ | template
  · exact .fail rfl
  · refine commutes_locate _ (commutes_ofCause ?_)
    cases template.instantiate (TypeName.ofExpr type).args <;> rfl

/-- Reading a place, by induction on it. -/
theorem commutes_readPlace (scope : ScopeId) (place : Ast.Place) :
    Commutes g (readPlace scope place) (readPlace scope (relocate g place)) := by
  induction place with
  | var name => exact commutes_lookup scope name
  | field base name span ih =>
      exact .bind ih fun v => .pure (Value.get_relocate g v name.name)

/-- Assigning to a place. -/
theorem commutes_assignPlace (scope : ScopeId) (target : Ast.Place) (v : Value) :
    Commutes g (assignPlace scope target v)
      (assignPlace scope (relocate g target) (relocate g v)) := by
  intro m
  have hassign : (relocate g m).store.assignPlace scope (relocate g target) (relocate g v) =
      relocate g (m.store.assignPlace scope target v) :=
    Store.assignPlace_relocate m.store scope target v
  rw [assignPlace, assignPlace, hassign]
  cases m.store.assignPlace scope target v <;> rfl

end Eval

/-! ### Expressions and statements -/

/-- What a call does commutes with relocation. -/
def Rules.Commute (g : Relocation) (rules : Rules) : Prop :=
  ∀ name f args span,
    Commutes g (rules.call name f args span)
      (rules.call name (relocate g f) (relocate g args) (relocate g span))

variable {rules : Rules}

namespace Eval

/-- Whether a callee is a built-in function does not depend on positions. -/
theorem builtin?_relocate (callee : Ast.Place) :
    builtin? (relocate g callee) = builtin? callee := by
  cases callee <;> rfl

/-- What a built-in function prints does not depend on positions. -/
theorem printed_relocate (f : Builtin) (args : List Value) :
    f.printed (relocate g args) = f.printed args := by
  have hprinted (text : Value → String) (htext : ∀ v, text (relocate g v) = text v) :
      (relocate g args).map text = args.map text := by
    simp [relocate_list, Function.comp_def, htext]
  have hempty : (relocate g args).isEmpty = args.isEmpty := List.isEmpty_map
  cases f with
  | print => simp only [Builtin.printed, hprinted _ (Value.printed_relocate g)]
  | println =>
      have hlines := hprinted (fun v => v.printed ++ "\n") fun v => by
        rw [Value.printed_relocate]
      simp only [Builtin.printed, hempty, hlines]

/-- Calling what a place holds, be it a built-in function, a function or no function at all. -/
theorem commutes_callPlace (hrules : rules.Commute g) (scope : ScopeId) (callee : Ast.Place)
    (args : List Value) (span : Span) :
    Commutes g (callPlace rules scope callee args span)
      (callPlace rules scope (relocate g callee) (relocate g args) (relocate g span)) := by
  simp only [callPlace, builtin?_relocate, Ast.Place.written_relocate, Ast.Place.span_relocate,
    printed_relocate]
  split
  · exact .bind (commutes_print _) fun _ => .pure rfl
  · refine .bind (commutes_readPlace scope callee) fun v => ?_
    cases v with
    | func f => exact hrules callee.written f args span
    | struct record =>
        rw [Value.relocate_struct]
        exact .fail rfl
    | _ => exact .fail rfl

/-- Making a struct of relocated fields, where no field may be missing if the rules are strict. -/
theorem buildStruct_relocate (strict : Bool) (type : Ast.TypeExpr) (inst : Instantiation)
    (fields : NameMap Value) :
    buildStruct strict (relocate g type) inst (relocate g fields) =
      relocate g (buildStruct strict type inst fields) := by
  have hmissing : missingField? inst.type.fields (relocate g fields) =
      missingField? inst.type.fields fields := by
    simp only [missingField?, NameMap.contains_relocate]
  simp only [buildStruct, hmissing, Ast.TypeExpr.name_relocate, Ast.Ident.name_relocate,
    TypeName.ofExpr_relocate]
  split
  · rfl
  · exact congrArg Except.ok (Value.relocate_struct g ⟨_, _, _, fields⟩).symm

end Eval

open Eval

mutual

/-- Evaluating an expression, if calls commute. -/
theorem Ast.Expr.commutes_eval (hrules : rules.Commute g) (scope : ScopeId) : (e : Ast.Expr) →
    Commutes g (e.eval rules scope) ((relocate g e).eval rules scope)
  | ⟨node, span⟩ => by
      rw [Ast.Expr.relocate_mk, Ast.Expr.eval, Ast.Expr.eval]
      exact commutes_locate span (Ast.Node.commutes_eval hrules scope span node)

/-- Evaluating what an expression is, with one case for each kind. -/
theorem Ast.Node.commutes_eval (hrules : rules.Commute g) (scope : ScopeId) (span : Span) :
    (node : Ast.Node) →
      Commutes g (node.eval rules scope span) ((relocate g node).eval rules scope (relocate g span))
  | .literal kind lexeme => by
      rw [Ast.Node.relocate_literal, Ast.Node.eval, Ast.Node.eval]
      exact commutes_ofCause
        (Value.relocate_eq_of_plain fun v hv => Value.plain_of_ofLiteral hv).symm
  | .place p => by
      rw [Ast.Node.relocate_place, Ast.Node.eval, Ast.Node.eval]
      exact commutes_readPlace scope p
  | .struct type inits => by
      rw [Ast.Node.relocate_struct, Ast.Node.eval, Ast.Node.eval]
      refine .bind (commutes_instantiate scope type) fun inst => ?_
      simp only [Ast.TypeExpr.name_relocate, Ast.Ident.name_relocate]
      refine .bind (Ast.Node.commutes_evalInits hrules scope _ _ [] inits) fun fields => ?_
      exact commutes_ofCause (buildStruct_relocate _ type inst fields)
  | .unary op operand => by
      rw [Ast.Node.relocate_unary, Ast.Node.eval, Ast.Node.eval]
      refine .bind (Ast.Expr.commutes_eval hrules scope operand) fun v => ?_
      exact commutes_ofCause (Value.applyUnary_relocate op v)
  | .binary op left right => by
      rw [Ast.Node.relocate_binary, Ast.Node.eval, Ast.Node.eval]
      refine .bind (Ast.Expr.commutes_eval hrules scope left) fun a => ?_
      refine .bind (Ast.Expr.commutes_eval hrules scope right) fun b => ?_
      exact commutes_ofCause (Value.applyBinary_relocate op a b)
  | .call callee args => by
      rw [Ast.Node.relocate_call, Ast.Node.eval, Ast.Node.eval]
      refine .bind (Ast.Node.commutes_evalArgs hrules scope args) fun values => ?_
      exact commutes_callPlace hrules scope callee values span
  | .func f => by
      rw [Ast.Node.relocate_func, Ast.Node.eval, Ast.Node.eval]
      exact .pure rfl

/-- Evaluating initialisers from left to right, with the fields given so far. -/
theorem Ast.Node.commutes_evalInits (hrules : rules.Commute g) (scope : ScopeId)
    (typeName : String) (declared : NameMap TypeName) (given : NameMap Value) :
    (inits : List Ast.FieldInit) →
      Commutes g (Ast.Node.evalInits rules scope typeName declared given inits)
        (Ast.Node.evalInits rules scope typeName declared (relocate g given) (relocate g inits))
  | [] => by
      rw [relocate_nil, Ast.Node.evalInits, Ast.Node.evalInits]
      exact .pure rfl
  | ⟨name, value, span⟩ :: rest => by
      rw [relocate_cons, Ast.FieldInit.relocate_mk, Ast.Node.evalInits, Ast.Node.evalInits]
      simp only [Ast.Ident.name_relocate]
      split
      · exact .fail rfl
      · rename_i type _
        refine .bind (Ast.Expr.commutes_eval hrules scope value) fun v => ?_
        simp only [Value.typeName_relocate, NameMap.insert_relocate]
        split
        · exact Ast.Node.commutes_evalInits hrules scope typeName declared _ rest
        · exact .fail rfl

/-- Evaluating arguments from left to right. -/
theorem Ast.Node.commutes_evalArgs (hrules : rules.Commute g) (scope : ScopeId) :
    (args : List Ast.Expr) →
      Commutes g (Ast.Node.evalArgs rules scope args)
        (Ast.Node.evalArgs rules scope (relocate g args))
  | [] => by
      rw [relocate_nil, Ast.Node.evalArgs]
      exact .pure rfl
  | arg :: rest => by
      rw [relocate_cons, Ast.Node.evalArgs, Ast.Node.evalArgs]
      refine .bind (Ast.Expr.commutes_eval hrules scope arg) fun v => ?_
      exact .bind (Ast.Node.commutes_evalArgs hrules scope rest) fun vs => .pure rfl

end

namespace Ast

/-- Running a statement. -/
theorem Stmt.commutes_exec (hrules : rules.Commute g) (scope : ScopeId) (stmt : Stmt) :
    Commutes g (stmt.exec rules scope) ((relocate g stmt).exec rules scope) := by
  cases stmt with
  | typeDef name definition span =>
      rw [Stmt.relocate_typeDef, Stmt.exec, Stmt.exec]
      simp only [TypeExpr.name_relocate, Ident.name_relocate, StructType.ofDefinition_relocate]
      exact .bind (commutes_defineType scope _ _) fun _ => .pure rfl
  | define target value span =>
      rw [Stmt.relocate_define, Stmt.exec, Stmt.exec]
      simp only [Place.root_relocate, Ident.name_relocate]
      refine .bind (value.commutes_eval hrules scope) fun v => ?_
      exact .bind (commutes_define scope _ v) fun _ => .pure rfl
  | assign target value span =>
      rw [Stmt.relocate_assign, Stmt.exec, Stmt.exec]
      refine .bind (value.commutes_eval hrules scope) fun v => ?_
      exact .bind (commutes_locate span (commutes_assignPlace scope target v)) fun _ => .pure rfl
  | ret value span =>
      rw [Stmt.relocate_ret]
      cases value with
      | none =>
          rw [relocate_none, Stmt.exec, Stmt.exec]
          exact .pure rfl
      | some value =>
          rw [relocate_some, Stmt.exec, Stmt.exec]
          exact .bind (value.commutes_eval hrules scope) fun v => .pure rfl
  | expr e =>
      rw [Stmt.relocate_expr, Stmt.exec, Stmt.exec]
      exact .bind (e.commutes_eval hrules scope) fun _ => .pure rfl

/-- Running statements in turn, up to a return. -/
theorem Stmt.commutes_execAll (hrules : rules.Commute g) (scope : ScopeId) (stmts : List Stmt) :
    Commutes g (Stmt.execAll rules scope stmts) (Stmt.execAll rules scope (relocate g stmts)) := by
  induction stmts with
  | nil => exact .pure rfl
  | cons stmt rest ih =>
      rw [relocate_cons, Stmt.execAll, Stmt.execAll]
      refine .bind (stmt.commutes_exec hrules scope) fun outcome => ?_
      cases outcome with
      | completed => exact ih
      | returned v => exact .pure rfl

end Ast

/-! ### Calls and runs -/

namespace Closure

/-- Binding arguments to parameters, each checked for its type. -/
theorem bindArguments_relocate (callee : String) : (pairs : List (Ast.Param × Value)) →
    bindArguments callee (relocate g pairs) = relocate g (bindArguments callee pairs)
  | [] => rfl
  | (⟨name, type⟩, arg) :: rest => by
      have hrest := bindArguments_relocate callee rest
      simp only [relocate_cons, relocate_pair, Ast.Param.relocate_mk, bindArguments,
        Value.typeName_relocate, Ast.TypeExpr.name_relocate, Ast.TypeExpr.text_relocate,
        Ast.Ident.name_relocate, hrest]
      split
      · cases bindArguments callee rest <;> rfl
      · rfl

/-- Checking the number and the types of arguments. -/
theorem checkArguments_relocate (name : String) (f : Closure) (args : List Value) :
    (relocate g f).checkArguments name (relocate g args) =
      relocate g (f.checkArguments name args) := by
  have hzip : (relocate g f.definition.params).zip (relocate g args) =
      relocate g (f.definition.params.zip args) := List.zip_map ..
  simp only [checkArguments, arity_relocate, length_relocate, definition_relocate,
    Ast.FuncDef.params_relocate, hzip, bindArguments_relocate]
  split <;> rfl

/-- Running the body of a function in a scope of its own. -/
theorem commutes_body (hrules : rules.Commute g) (f : Closure) (bindings : List (String × Value)) :
    Commutes g (f.body rules bindings) ((relocate g f).body rules (relocate g bindings)) := by
  refine .bind (commutes_enterScope f.scope bindings) fun inner => ?_
  rw [definition_relocate, Ast.FuncDef.body_relocate]
  exact Ast.Stmt.commutes_execAll hrules inner f.definition.body

/-- A call commutes with relocation. -/
theorem commutes_call (strict : Bool) (n : Nat) :
    Rules.Commute g ⟨strict, Closure.call strict n⟩ := by
  induction n with
  | zero => exact fun _ _ _ _ => .exhausted
  | succ n ih =>
      intro name f args span
      change Commutes g (Closure.call strict (n + 1) name f args span)
        (Closure.call strict (n + 1) name _ _ _)
      rw [call_succ, call_succ]
      refine .bind (commutes_ofCause (checkArguments_relocate name f args)) fun bindings => ?_
      refine .bind (commutes_inFrame ⟨name, some span⟩ (commutes_body ih f bindings)) fun r => ?_
      exact .pure (Outcome.value_relocate g r)

end Closure

/-- **Running commutes with relocation.** -/
theorem Machine.commutes_run (strict : Bool) (bound : Nat) (scope : ScopeId)
    (stmts : List Ast.Stmt) :
    Commutes g (Machine.run strict bound scope stmts)
      (Machine.run strict bound scope (relocate g stmts)) :=
  Ast.Stmt.commutes_execAll (Closure.commutes_call strict bound) scope stmts

end StructScript
