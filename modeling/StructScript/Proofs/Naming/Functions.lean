import StructScript.Proofs.Naming.Source

/-!
# Functions stay outside of structs

A value is taken for a field or for a parameter if the name of its type is the one that is written
there. A function goes by the name `func`, and that word is written nowhere as a type. So no struct
value comes to hold a function, at any depth, and no parameter is given one; both are said of every
moment of every run (`Moment.FunctionsOutside`). A field therefore never reads as a function, and a
call of a field fails once its arguments are evaluated, before any function body is run
(`Moment.CallFails`).

Main result: `Session.functions_stay_outside`.
-/

namespace StructScript

/-- The value holds no function but itself: none stands in a field of a struct, at any depth. -/
def Value.NoFieldFunctions (v : Value) : Prop := ∀ f, v.Contains f → v = .func f

/-- No struct that a variable holds has a function in it. -/
def Store.NoFieldFunctions (s : Store) : Prop :=
  ∀ id scope, s.scope? id = some scope → ∀ entry ∈ scope.vars, entry.2.NoFieldFunctions

namespace Moment

/-- A call starts the evaluation of its arguments and nothing else. It ends in an error, that of an
argument or, behind them, one for a callee that is not bound or is no function, and then it has done
no more than they have. -/
def CallFails (strict : Bool) (n : Nat) (scope : ScopeId) (callee : Ast.Place)
    (args : List Ast.Expr) (span : Span) (m : Machine) : Prop :=
  let call : Ast.Expr := ⟨.call callee args, span⟩
  (∀ y, Starts strict ⟨n, .expr scope call, m⟩ y → y = ⟨n, .args scope args, m⟩) ∧
  match Ast.Node.evalArgs (.upTo strict n) scope args m with
  | none => call.eval (.upTo strict n) scope m = none
  | some (.error e, m') => call.eval (.upTo strict n) scope m = some (.error (e.locate span), m')
  | some (.ok _, m') => ∃ e, call.eval (.upTo strict n) scope m = some (.error e, m') ∧
      (e.cause = .undefinedVariable callee.root.name ∨
        ∃ type, e.cause = .notCallable callee.written type)

/-- At the moment no struct in a variable holds a function, and what it is about to do puts none
there: expressions give no such struct, no given field is or holds a function, no parameter is bound
to one, and an assignment gives one only to a variable that holds one already. A call of a field
fails. -/
def FunctionsOutside (strict : Bool) (x : Moment) : Prop :=
  x.machine.store.NoFieldFunctions ∧
  match x.task with
  | .expr scope e =>
    (∀ v m, e.eval (.upTo strict x.bound) scope x.machine = some (.ok v, m) →
      v.NoFieldFunctions) ∧
    ∀ base field place args span, e = ⟨.call (.field base field place) args, span⟩ →
      CallFails strict x.bound scope (.field base field place) args span x.machine
  | .inits _ _ _ given _ => ∀ entry ∈ given, ∀ f, ¬ entry.2.Contains f
  | .stmt scope (.assign target e _) =>
    ∀ v m t, e.eval (.upTo strict x.bound) scope x.machine = some (.ok v, m) →
      m.store.assignPlace scope target v = .ok t →
      ∀ id name f, (t.vars id).find? name = some (.func f) →
        ∃ g, (m.store.vars id).find? name = some (.func g)
  | .call name f args _ =>
    (∀ v ∈ args, v.NoFieldFunctions) ∧
    ∀ bindings, f.checkArguments name args = .ok bindings →
      ∀ b ∈ bindings, ∀ g, ¬ b.2.Contains g
  | _ => True

end Moment

/-! ### Values -/

namespace Naming

variable {v : Value}

/-- A value that goes by the name of functions is one. -/
theorem OfValue.exists_func (h : functionless.OfValue v) (hname : v.typeName = "func") :
    ∃ f, v = .func f := by
  cases v with
  | func f => exact ⟨f, rfl⟩
  | struct record => exact absurd hname (ofValue_struct_iff.mp h).1
  | _ => simp [Value.typeName, Value.kindName] at hname

/-- Where no field may hold a function, a value holds none in its fields. -/
theorem OfValue.noFieldFunctions (h : functionless.OfValue v) : v.NoFieldFunctions := by
  intro f hf
  induction hf with
  | func f => rfl
  | @field record entry f hentry hf ih =>
      obtain ⟨-, -, hnames, hfields⟩ := ofValue_struct_iff.mp h
      have hfunc := ih (hfields entry hentry)
      exact absurd (congrArg Value.typeName hfunc) (hnames entry hentry)

/-- A value of another name than functions go by holds none. -/
theorem OfValue.not_contains (h : functionless.OfValue v) (hname : v.typeName ≠ "func")
    (f : Closure) : ¬ v.Contains f := by
  intro hf
  exact hname (congrArg Value.typeName (h.noFieldFunctions f hf))

/-- No field reads as a function. -/
theorem OfValue.get_ne_func (h : functionless.OfValue v) (field : String) (f : Closure) :
    v.get field ≠ .func f := by
  intro hget
  have hprimitive (w : Value) (hw : w.Plain) (heq : w.getPrimitive field = .func f) : False := by
    have hplain := hw.getPrimitive field
    rw [heq] at hplain
    exact hplain
  cases v with
  | struct record =>
      obtain ⟨-, -, hnames, -⟩ := ofValue_struct_iff.mp h
      rcases hfind : NameMap.find? record.fields field with _ | w
      · simp [Value.get, hfind] at hget
      · simp only [Value.get, hfind, Option.getD_some] at hget
        exact hnames _ (NameMap.mem_of_find? hfind) (congrArg Value.typeName hget)
  | func g => cases hget
  | _ =>
      simp only [Value.get] at hget
      exact hprimitive _ (by trivial) hget

end Naming

/-! ### Calls of fields -/

/-- Reading a place changes nothing. It fails only where the root is not bound. -/
theorem Eval.readPlace_cases (scope : ScopeId) (place : Ast.Place) (m : Machine) :
    (∃ v, readPlace scope place m = some (.ok v, m)) ∨
      ∃ e, readPlace scope place m = some (.error e, m) ∧
        e.cause = .undefinedVariable place.root.name := by
  induction place with
  | var name =>
      rcases hv : m.store.lookupVariable scope name.name with _ | v
      · refine .inr ⟨.atSpan name.span (.undefinedVariable name.name), ?_, rfl⟩
        simp [readPlace, lookup, Bounded.bind_apply, Bounded.state, hv, failAt]
      · refine .inl ⟨v, ?_⟩
        simp [readPlace, lookup, Bounded.bind_apply, Bounded.state, hv]
  | field base name span ih =>
      rw [readPlace]
      rcases ih with ⟨v, hv⟩ | ⟨e, he, hcause⟩
      · exact .inl ⟨_, Bounded.bind_eq_ok_iff.mpr ⟨v, m, hv, rfl⟩⟩
      · exact .inr ⟨e, Bounded.bind_eq_error_iff.mpr (.inl he), hcause⟩

namespace Moment

variable {strict : Bool} {n : Nat} {scope : ScopeId} {args : List Ast.Expr} {m : Machine}

/-- What is not found to be a function is not called. -/
theorem callFails_of_readPlace {callee : Ast.Place} (hbuiltin : Eval.builtin? callee = none)
    (hcallee : ∀ values m', Ast.Node.evalArgs (.upTo strict n) scope args m =
      some (.ok values, m') → ∀ f m'', Eval.readPlace scope callee m' ≠ some (.ok (.func f), m''))
    (span : Span) : CallFails strict n scope callee args span m := by
  refine ⟨fun y hy => ?_, ?_⟩
  · cases hy with
    | args => rfl
    | call hargs _ hread => exact absurd hread (hcallee _ _ hargs _ _)
  · split
    · rename_i hargs
      rw [Ast.Expr.eval, Eval.locate, Bounded.mapError_eq_none_iff, Ast.Node.eval]
      exact Bounded.bind_eq_none_iff.mpr (.inl hargs)
    · rename_i e m' hargs
      rw [Ast.Expr.eval, Eval.locate, Ast.Node.eval, Bounded.mapError, Bounded.bind_apply, hargs]
    · rename_i values m' hargs
      -- the callee is read after the arguments: it is not bound, or it is no function
      have hcall : ∃ e, Eval.callPlace (.upTo strict n) scope callee values span m' =
          some (.error e, m') ∧ (e.cause = .undefinedVariable callee.root.name ∨
            ∃ type, e.cause = .notCallable callee.written type) := by
        simp only [Eval.callPlace, hbuiltin]
        rcases Eval.readPlace_cases scope callee m' with ⟨v, hv⟩ | ⟨e, he, hcause⟩
        · refine ⟨.atSpan callee.span (.notCallable callee.written v.typeName), ?_,
            .inr ⟨v.typeName, rfl⟩⟩
          refine Bounded.bind_eq_error_iff.mpr (.inr ⟨v, m', hv, ?_⟩)
          cases v with
          | func f => exact absurd hv (hcallee _ _ hargs f m')
          | _ => rfl
        · exact ⟨e, Bounded.bind_eq_error_iff.mpr (.inl he), .inl hcause⟩
      obtain ⟨e, he, hcause⟩ := hcall
      refine ⟨e.locate span, ?_, by rwa [EvalError.locate_cause]⟩
      rw [Ast.Expr.eval, Eval.locate, Ast.Node.eval, Bounded.mapError, Bounded.bind_apply, hargs]
      simp only [he]

end Moment

/-! ### Moments -/

namespace Naming

variable {strict : Bool}

/-- Nor does any variable of the store. -/
theorem OfStore.noFieldFunctions {s : Store} (h : functionless.OfStore s) : s.NoFieldFunctions :=
  fun id scope hscope entry hentry => ((h id scope hscope).1 entry hentry).noFieldFunctions

/-- What a call binds to its parameters holds no function. -/
theorem not_contains_of_checkArguments {name : String} {f : Closure} {args : List Value}
    {bindings : List (String × Value)} (hf : functionless.OfValue (.func f))
    (hargs : ∀ v ∈ args, functionless.OfValue v)
    (h : f.checkArguments name args = .ok bindings) : ∀ b ∈ bindings, ∀ g, ¬ b.2.Contains g := by
  obtain ⟨rfl, htypes⟩ := Closure.eq_of_checkArguments h
  intro b hb
  obtain ⟨⟨param, arg⟩, hpair, rfl⟩ := List.mem_map.mp hb
  obtain ⟨hparam, harg⟩ := List.of_mem_zip hpair
  exact (hargs arg harg).not_contains (htypes _ hpair ▸ hf.code.ofPart param hparam)

/-- An assignment gives a function only to a variable that holds one. -/
theorem exists_func_of_assignPlace {s t : Store} {scope : ScopeId} {target : Ast.Place} {v : Value}
    (hs : functionless.OfStore s) (h : s.assignPlace scope target v = .ok t) {id : ScopeId}
    {name : String} {f : Closure} (hf : (t.vars id).find? name = some (.func f)) :
    ∃ g, (s.vars id).find? name = some (.func g) := by
  obtain ⟨binder, old, new, hbinder, -, htype, rfl⟩ := Store.exists_of_assignPlace h
  rcases Store.cases_of_find?_defineVariable hf with ⟨rfl, rfl, rfl⟩ | hsame
  · obtain ⟨g, rfl⟩ := (hs.binder? hbinder).exists_func htype
    exact ⟨g, Store.find?_vars_of_binder? hbinder⟩
  · exact ⟨f, hsame⟩

/-- At the moments that code without the name of functions comes to, functions stay outside. -/
theorem functionsOutside {x : Moment} (h : (functionless.regime strict).Admits x) :
    x.FunctionsOutside strict := by
  obtain ⟨n, task, m⟩ := x
  obtain ⟨hstore, htask⟩ := id h
  have hrules := (functionless.regime strict).keptBy_call n
  refine ⟨hstore.noFieldFunctions, ?_⟩
  cases task with
  | expr scope e =>
      obtain ⟨hscope, hcode⟩ := htask
      refine ⟨fun v m' hv => ?_, ?_⟩
      · have hkeeps := Regime.keeps_eval hrules hscope e hcode m _ m' hstore hv
        exact OfValue.noFieldFunctions (hkeeps.2 v rfl)
      · -- a field gives no function, so there is none to call
        rintro base field place args span rfl
        refine Moment.callFails_of_readPlace rfl (fun values m' hargs f m'' hread => ?_) span
        have hcodes : ∀ e ∈ args, functionless.Code (.expr e) := fun e he =>
          hcode.child (.arg he _ span)
        have hstore' := (Regime.keeps_evalArgs hrules hscope args hcodes m _ m' hstore hargs).1
        rw [Eval.readPlace] at hread
        obtain ⟨v, m₁, hv, hget⟩ := Bounded.bind_eq_ok_iff.mp hread
        have hbase := Regime.keeps_readPlace hscope base m' _ m₁ hstore' hv
        rw [Bounded.pure_apply, Option.some.injEq, Prod.mk.injEq, Except.ok.injEq] at hget
        exact OfValue.get_ne_func (hbase.2 v rfl) field.name f hget.1
  | inits scope typeName declared given inits =>
      obtain ⟨-, ⟨type, inst, hinst, rfl⟩, hgiven, -⟩ := htask
      intro entry hentry
      obtain ⟨hvalue, declared, hfind, hname⟩ := hgiven.suits entry hentry
      exact OfValue.not_contains hvalue (hname ▸ hinst.2 _ (NameMap.mem_of_find? hfind))
  | args => trivial
  | stmt scope stmt =>
      cases stmt with
      | assign target e span =>
          intro v m' t hv ht id name f hf
          exact exists_func_of_assignPlace (h.assigned hv).1 ht hf
      | _ => trivial
  | stmts => trivial
  | call name f args span =>
      obtain ⟨hf, hargs⟩ := htask
      exact ⟨fun v hv => OfValue.noFieldFunctions (hargs v hv), fun bindings hbindings =>
        not_contains_of_checkArguments hf hargs hbindings⟩

end Naming

/-! ### Sessions -/

namespace Session

variable {config : Config} {output : Output} {s : Session} {bound : Nat} {text : String}

/-- If a moment of a run has no end, the run has none. -/
theorem Meets.run_eq_none {x : Moment} (h : s.Meets bound text x)
    (hx : x.Exhausts s.config.strict) : s.run bound text = none := by
  obtain ⟨program, hprogram, hreaches⟩ := h
  have hrun : Machine.run s.config.strict bound s.root program.stmts s.machine = none :=
    hreaches.exhausts hx
  rw [run, runIn_of_read hprogram, hrun, Option.map_none]

/-- **Functions stay outside of structs.** In every session that texts lead to, and at every moment
of a run of another text, no struct that a variable holds, an expression gives or a call is given
has a function in it, at any depth; no parameter is bound to a function; and a call whose callee is
a field ends in an error, of an argument or because the callee is not bound or no function, without
starting anything but its arguments. If it does not end, neither does the run. (A definition in the
body of a function may bind the name of a parameter anew; an assignment gives a function only to a
variable that holds one.) -/
theorem functions_stay_outside (h : Reachable config output s) :
    s.machine.store.NoFieldFunctions ∧
    ∀ bound text x, s.Meets bound text x → x.FunctionsOutside config.strict ∧
      (x.Exhausts config.strict → s.run bound text = none) := by
  obtain ⟨texts, hafter⟩ := h.exists_after
  let R := Naming.functionless.regime config.strict
  have hadmitted (text : String) : Admitted R text := Naming.admitted_functionless _ text
  have hnew : R.store (Session.new config output).machine.store :=
    (Naming.OfStore.empty Naming.functionless).add none
  have hstore := hafter.store R (fun _ => trivial) hnew fun text _ => hadmitted text
  refine ⟨Naming.OfStore.noFieldFunctions hstore, fun bound text x hx => ⟨?_, fun hnone => ?_⟩⟩
  · exact Naming.functionsOutside
      (hx.admits hafter R (fun _ => trivial) hnew fun text _ => hadmitted text)
  · rw [← h.config_eq] at hnone
    exact hx.run_eq_none hnone

/-- Whether a text has been read as one call of a field. -/
def callsField : Except Failure Ast.Program → Bool
  | .ok ⟨[.expr ⟨.call (.field _ _ _) _, _⟩]⟩ => true
  | _ => false

/-- A call of a field fails after a text that defines a struct and a function. -/
theorem functions_stay_outside_field_call :
    ∃ s scope base field place args span, Reachable ⟨"", some 8, true⟩ .silent s ∧
      s.machine.store.NoFieldFunctions ∧
      s.Meets 9 "p->x(f(1));"
        ⟨9, .expr scope ⟨.call (.field base field place) args, span⟩, s.machine⟩ ∧
      Moment.CallFails true 9 scope (.field base field place) args span s.machine := by
  let first := (new ⟨"", some 8, true⟩ .silent).run 9
    "type P = struct { x int }; let p = P { x: 1 }; let f = func(n int) int { return n; };"
  have hreads : first.any (fun p => callsField
      (Ast.Program.ofSource (p.2.sources + 1) p.2.config.file "p->x(f(1));")) = true := by
    decide +kernel
  obtain ⟨⟨r, s⟩, hs, hcall⟩ := (Option.any_eq_true _ _).mp hreads
  have hreach : Reachable ⟨"", some 8, true⟩ .silent s := Reachable.new.run hs
  unfold callsField at hcall
  split at hcall
  · rename_i base field place args span hread
    obtain ⟨hstore, hmoments⟩ := functions_stay_outside hreach
    have hmeets : s.Meets 9 "p->x(f(1));"
        ⟨9, .expr s.root ⟨.call (.field base field place) args, span⟩, s.machine⟩ :=
      ⟨_, hread, .tail (.single .stmt) .statement⟩
    have hfails := (hmoments 9 _ _ hmeets).1.2.2 base field place args span rfl
    exact ⟨s, s.root, base, field, place, args, span, hreach, hstore, hmeets, hfails⟩
  · cases hcall

end Session

end StructScript
