import StructScript.Proofs.Evaluation.Isolation
import StructScript.Proofs.Evaluation.Ordered

/-!
# The order of fields does not matter

The initialisers of a struct literal are evaluated one after the other. Where they make no calls
each is evaluated on the same machine, and where they name different fields each adds its own entry
to the map of fields (`Ast.InitsSuit.evalInits_eq`); so the literal gives the same result in
whatever order they stand. Which field is reported as missing does not depend on their order either:
it is the least of those that are not given. A definition gives the same type in whatever order its
groups of fields stand (`StructType.ofDefinition_perm`).

Main result: `eval_struct_perm`.
-/

namespace StructScript

namespace Ast

variable {rules : Rules} {scope : ScopeId} {m : Machine} {declared : NameMap TypeName}
  {inits inits' : List FieldInit}

/-- The field that an initialiser gives. -/
def FieldInit.given (rules : Rules) (scope : ScopeId) (m : Machine) (init : FieldInit) :
    String × Value :=
  (init.name.name, match init.value.eval rules scope m with
    | some (.ok v, _) => v
    | _ => .nil)

/-- The initialisers give different fields, declared ones, values of their declared types, without
making calls. -/
structure InitsSuit (rules : Rules) (scope : ScopeId) (m : Machine) (declared : NameMap TypeName)
    (inits : List FieldInit) : Prop where
  distinct : (inits.map (·.name.name)).Nodup
  callFree : ∀ init ∈ inits, init.value.callFree = true
  typed : ∀ init ∈ inits, ∃ type v m', declared.find? init.name.name = some type ∧
    init.value.eval rules scope m = some (.ok v, m') ∧ v.typeName = type.name

/-- The first in the order of bytes of the declared fields that no initialiser gives. -/
structure LeastMissing (declared : NameMap TypeName) (inits : List FieldInit) (name : String) :
    Prop where
  mem : name ∈ declared.names
  missing : ∀ init ∈ inits, init.name.name ≠ name
  least : ∀ other ∈ declared.names, (∀ init ∈ inits, init.name.name ≠ other) → other ≠ name →
    utf8 name < utf8 other

/-! ### The fields of a literal -/

/-- An initialiser gives its field the value that it evaluates to. -/
theorem FieldInit.given_of_eval {init : FieldInit} {v : Value} {m' : Machine}
    (h : init.value.eval rules scope m = some (.ok v, m')) :
    init.given rules scope m = (init.name.name, v) := by
  rw [given, h]

namespace InitsSuit

/-- Initialisers that suit do so in any order. -/
theorem perm (h : InitsSuit rules scope m declared inits) (hperm : inits'.Perm inits) :
    InitsSuit rules scope m declared inits' where
  distinct := (hperm.map _).nodup_iff.mpr h.distinct
  callFree init hinit := h.callFree init (hperm.mem_iff.mp hinit)
  typed init hinit := h.typed init (hperm.mem_iff.mp hinit)

/-- They give each field once. -/
theorem nodup_given (h : InitsSuit rules scope m declared inits) :
    ((inits.map (·.given rules scope m)).map (·.1)).Nodup := by
  rw [List.map_map]
  exact h.distinct

/-- An initialiser leaves the machine as it is. -/
theorem eval_eq (h : InitsSuit rules scope m declared inits) {init : FieldInit}
    (hinit : init ∈ inits) :
    ∃ type v, declared.find? init.name.name = some type ∧ v.typeName = type.name ∧
      init.value.eval rules scope m = some (.ok v, m) := by
  obtain ⟨type, v, m', htype, heval, hname⟩ := h.typed init hinit
  obtain rfl := Expr.inert_eval rules scope init.value (h.callFree init hinit) m _ m' heval
  exact ⟨type, v, htype, hname, heval⟩

/-- Those behind the first suit by themselves. -/
theorem tail {init : FieldInit} (h : InitsSuit rules scope m declared (init :: inits)) :
    InitsSuit rules scope m declared inits where
  distinct := (List.nodup_cons.mp h.distinct).2
  callFree other hother := h.callFree other (List.mem_cons_of_mem _ hother)
  typed other hother := h.typed other (List.mem_cons_of_mem _ hother)

/-- Evaluating the initialisers adds the fields that they give, and changes nothing. -/
theorem evalInits_eq (h : InitsSuit rules scope m declared inits) (typeName : String)
    (fields : NameMap Value) :
    Node.evalInits rules scope typeName declared fields inits m =
      some (.ok ((inits.map (·.given rules scope m)).foldl (fun fields b => fields.insert b.1 b.2)
        fields), m) := by
  induction inits generalizing fields with
  | nil => rfl
  | cons init rest ih =>
      obtain ⟨type, v, htype, hname, heval⟩ := h.eval_eq List.mem_cons_self
      rw [List.map_cons, List.foldl_cons, FieldInit.given_of_eval heval, ← ih h.tail]
      obtain ⟨name, value, span⟩ := init
      dsimp only at htype heval
      simp only [Node.evalInits, htype, Bounded.bind_apply, heval, if_pos hname]

/-- What a struct literal gives depends only on the map of the fields that its initialisers give. -/
theorem eval_struct_eq {type : TypeExpr} {inst : Instantiation}
    (hinst : Eval.instantiate scope type m = some (.ok inst, m))
    (h : InitsSuit rules scope m inst.type.fields inits) (span : Span) :
    (⟨.struct type inits, span⟩ : Expr).eval rules scope m =
      Eval.locate span (Eval.ofCause (Eval.buildStruct rules.strict type inst
        (NameMap.ofList (inits.map (·.given rules scope m))))) m := by
  simp only [Expr.eval, Node.eval, Eval.locate, Bounded.mapError, Bounded.bind_apply, hinst,
    h.evalInits_eq]
  rfl

/-- The order of the initialisers does not matter. -/
theorem eval_struct_perm_eq {type : TypeExpr} {inst : Instantiation}
    (hinst : Eval.instantiate scope type m = some (.ok inst, m))
    (h : InitsSuit rules scope m inst.type.fields inits) (hperm : inits'.Perm inits) (span : Span) :
    (⟨.struct type inits', span⟩ : Expr).eval rules scope m =
      (⟨.struct type inits, span⟩ : Expr).eval rules scope m := by
  rw [(h.perm hperm).eval_struct_eq hinst, h.eval_struct_eq hinst,
    NameMap.ofList_perm (hperm.map _) (h.perm hperm).nodup_given]

/-- The fields that have been set are those that the initialisers name. -/
theorem contains_given_iff (name : String) :
    (NameMap.ofList (inits.map (·.given rules scope m))).contains name = true ↔
      ∃ init ∈ inits, init.name.name = name := by
  rw [NameMap.contains, Option.isSome_iff_exists, ← NameMap.mem_names_iff, NameMap.mem_names_ofList]
  simp [FieldInit.given]

/-- A field has the value that its initialiser evaluates to. -/
theorem find?_given_iff (h : InitsSuit rules scope m declared inits) (name : String) (v : Value) :
    (NameMap.ofList (inits.map (·.given rules scope m))).find? name = some v ↔
      ∃ init ∈ inits, init.name.name = name ∧ init.value.eval rules scope m = some (.ok v, m) := by
  rw [NameMap.find?_ofList_iff h.nodup_given, List.mem_map]
  refine exists_congr fun init => and_congr_right fun hinit => ?_
  obtain ⟨-, w, -, -, heval⟩ := h.eval_eq hinit
  rw [FieldInit.given_of_eval heval, heval]
  simp [eq_comm]

/-- Where no field has to be there that is not given, the literal is a struct of the given fields.
-/
theorem eval_struct_of_complete {type : TypeExpr} {inst : Instantiation}
    (hinst : Eval.instantiate scope type m = some (.ok inst, m))
    (h : InitsSuit rules scope m inst.type.fields inits)
    (hcomplete : rules.strict = true → ∀ name ∈ inst.type.fields.names,
      ∃ init ∈ inits, init.name.name = name) (span : Span) :
    ∃ record, (⟨.struct type inits, span⟩ : Expr).eval rules scope m =
        some (.ok (.struct record), m) ∧ record.type = .ofExpr type ∧
      ∀ name v, NameMap.find? record.fields name = some v ↔ ∃ init ∈ inits,
        init.name.name = name ∧ init.value.eval rules scope m = some (.ok v, m) := by
  have hnone : (if rules.strict then Eval.missingField? inst.type.fields
      (NameMap.ofList (inits.map (·.given rules scope m))) else none) = none := by
    split
    · rename_i hstrict
      rw [Eval.missingField?, List.find?_eq_none]
      intro name hname
      simp [(contains_given_iff name).mpr (hcomplete hstrict name hname)]
    · rfl
  refine ⟨⟨.ofExpr type, inst.bindings, inst.type.fields, _⟩, ?_, rfl, h.find?_given_iff⟩
  rw [h.eval_struct_eq hinst, Eval.buildStruct, hnone]
  rfl

/-- Where a field is missing, the least of them is reported. -/
theorem eval_struct_of_missing {type : TypeExpr} {inst : Instantiation}
    (hinst : Eval.instantiate scope type m = some (.ok inst, m))
    (h : InitsSuit rules scope m inst.type.fields inits)
    (hsorted : NameMap.Sorted inst.type.fields) (hstrict : rules.strict = true)
    (hmissing : ∃ name ∈ inst.type.fields.names, ∀ init ∈ inits, init.name.name ≠ name)
    (span : Span) :
    ∃ name, LeastMissing inst.type.fields inits name ∧
      (⟨.struct type inits, span⟩ : Expr).eval rules scope m =
        some (.error ⟨.missingField type.name.name name, some span, none⟩, m) := by
  have hfree (name : String) : (!(NameMap.ofList (inits.map (·.given rules scope m))).contains name)
      = true ↔ ∀ init ∈ inits, init.name.name ≠ name := by
    rw [Bool.not_eq_true', ← Bool.not_eq_true, contains_given_iff]
    simp
  cases hfind : Eval.missingField? inst.type.fields
      (NameMap.ofList (inits.map (·.given rules scope m))) with
  | none =>
      obtain ⟨name, hname, hnot⟩ := hmissing
      exact absurd ((hfree name).mpr hnot) (List.find?_eq_none.mp hfind name hname)
  | some name =>
      have hfound := List.find?_some hfind
      refine ⟨name, ⟨List.mem_of_find?_eq_some hfind, (hfree name).mp hfound,
        fun other hother hnot hne => ?_⟩, ?_⟩
      · exact (lt_iff_utf8_lt _ _).mp
          (hsorted.lt_of_find? hfind hother ((hfree other).mpr hnot) hne)
      · rw [h.eval_struct_eq hinst, Eval.buildStruct, if_pos hstrict, hfind]
        rfl

end InitsSuit

end Ast

/-! ### The fields of a definition -/

/-- A definition gives the same type in whatever order its groups of fields stand. -/
theorem StructType.ofDefinition_perm {definition : Ast.StructDef} {groups : List Ast.FieldGroup}
    (hperm : groups.Perm definition.groups)
    (hdistinct : ((declaredFields definition.groups).map (·.1)).Nodup) (name : String) :
    ofDefinition name { definition with groups := groups } = ofDefinition name definition := by
  have hfields : (declaredFields groups).Perm (declaredFields definition.groups) :=
    hperm.flatMap_right _
  have hnames : ((declaredFields groups).map (·.1)).Nodup :=
    (hfields.map _).nodup_iff.mpr hdistinct
  simp only [ofDefinition, NameMap.ofList_perm hfields hnames]

/-! ### The order of fields -/

/-- A type has its fields in order where it is instantiated. -/
theorem Store.Ordered.sorted_instantiate {scope : ScopeId} {m : Machine} {type : Ast.TypeExpr}
    {inst : Instantiation} (hm : m.store.Ordered)
    (hinst : Eval.instantiate scope type m = some (.ok inst, m)) :
    NameMap.Sorted inst.type.fields := by
  have hscope : (Regime.ordered true).readable scope := trivial
  have hcode : (Regime.ordered true).code (.expr ⟨.struct type [], type.span⟩) := trivial
  exact (Regime.keeps_instantiate hscope hcode m _ m hm hinst).2 inst rfl

/-- What an expression evaluates to shows its fields in order, and leaves all others in order. -/
theorem Store.Ordered.eval {strict : Bool} {bound : Nat} {scope : ScopeId} {e : Ast.Expr}
    {m m' : Machine} {r : Except EvalError Value} (hm : m.store.Ordered)
    (h : e.eval (.upTo strict bound) scope m = some (r, m')) :
    m'.store.Ordered ∧ ∀ v, r = .ok v → v.Every Record.ListsFields := by
  have hkept := (Regime.ordered strict).keptBy_call bound
  obtain ⟨hstore, hvalue⟩ := Regime.keeps_eval hkept trivial e trivial m r m' hm h
  exact ⟨hstore, fun v hv => (hvalue v hv).mono fun _ h => h.listsFields⟩

/-- **The order of fields does not matter.** A struct literal with suitable initialisers gives the
same in whatever order they stand: the struct of the given fields, or the error that names the least
missing field. Nor does it matter in which order the fields of a type are defined. All that
expressions evaluate to is shown in the order of the bytes of the names, for at every moment of
every run the fields are in order. -/
theorem eval_struct_perm {strict : Bool} {bound : Nat} {scope : ScopeId} {m : Machine}
    {type : Ast.TypeExpr} {inst : Instantiation} {inits : List Ast.FieldInit}
    (hinst : Eval.instantiate scope type m = some (.ok inst, m))
    (hsuit : Ast.InitsSuit (.upTo strict bound) scope m inst.type.fields inits) (span : Span) :
    (∀ inits' : List Ast.FieldInit, inits'.Perm inits →
      (⟨.struct type inits', span⟩ : Ast.Expr).eval (.upTo strict bound) scope m =
        (⟨.struct type inits, span⟩ : Ast.Expr).eval (.upTo strict bound) scope m) ∧
    ((strict = true → ∀ name ∈ inst.type.fields.names, ∃ init ∈ inits, init.name.name = name) →
      ∃ record, (⟨.struct type inits, span⟩ : Ast.Expr).eval (.upTo strict bound) scope m =
          some (.ok (.struct record), m) ∧
        record.type = .ofExpr type ∧ ∀ name v, NameMap.find? record.fields name = some v ↔
          ∃ init ∈ inits, init.name.name = name ∧
            init.value.eval (.upTo strict bound) scope m = some (.ok v, m)) ∧
    (m.store.Ordered → strict = true →
      (∃ name ∈ inst.type.fields.names, ∀ init ∈ inits, init.name.name ≠ name) →
      ∃ name, Ast.LeastMissing inst.type.fields inits name ∧
        (⟨.struct type inits, span⟩ : Ast.Expr).eval (.upTo strict bound) scope m =
          some (.error ⟨.missingField type.name.name name, some span, none⟩, m)) ∧
    (∀ name (definition : Ast.StructDef) (groups : List Ast.FieldGroup) place,
      groups.Perm definition.groups →
      ((StructType.declaredFields definition.groups).map (·.1)).Nodup →
      (Ast.Stmt.typeDef name { definition with groups := groups } place).exec (.upTo strict bound)
          scope m =
        (Ast.Stmt.typeDef name definition place).exec (.upTo strict bound) scope m) ∧
    (m.store.Ordered → ∀ (e : Ast.Expr) r m',
      e.eval (.upTo strict bound) scope m = some (r, m') →
      m'.store.Ordered ∧ ∀ v, r = .ok v → v.Every Record.ListsFields) ∧
    ∀ config output s limit text x, Session.Reachable config output s →
      s.Meets limit text x → x.machine.store.Ordered := by
  refine ⟨fun _ hperm => hsuit.eval_struct_perm_eq hinst hperm span,
    fun hcomplete => hsuit.eval_struct_of_complete hinst hcomplete span,
    fun hm hstrict hmissing => ?_, fun name definition groups place hperm hdistinct => ?_,
    fun hm e r m' he => hm.eval he, fun config output s limit text x hs hx => hx.ordered hs⟩
  · exact hsuit.eval_struct_of_missing hinst (hm.sorted_instantiate hinst) hstrict hmissing span
  · simp only [Ast.Stmt.exec, StructType.ofDefinition_perm hperm hdistinct]

/-- A machine that knows a type `Point` with the fields `x`, `y` and `z`. -/
def Machine.withPoint : Machine :=
  let int := TypeName.simple "int"
  let fields := NameMap.ofList [("x", int), ("y", int), ("z", int)]
  ⟨Store.empty.addRoot.2.defineType ⟨0⟩ "Point" ⟨"Point", [], fields⟩, .silent, .empty none⟩

/-- An initialiser that gives a field a number. -/
def Ast.FieldInit.ofInt (name lexeme : String) : Ast.FieldInit :=
  ⟨⟨name, default⟩, ⟨.literal .int lexeme, default⟩, default⟩

/-- A struct literal of the type `Point`. -/
def Ast.Expr.point (inits : List Ast.FieldInit) : Ast.Expr :=
  ⟨.struct (.mk ⟨"Point", default⟩ [] default) inits, default⟩

/-- With `x` missing, the error is the same whether `z` or `y` is given first. -/
theorem eval_struct_perm_point :
    Machine.withPoint.store.Ordered ∧
    ∃ inst, Eval.instantiate ⟨0⟩ (.mk ⟨"Point", default⟩ [] default) .withPoint =
        some (.ok inst, .withPoint) ∧
      Ast.InitsSuit (.upTo true 1) ⟨0⟩ .withPoint inst.type.fields
        [.ofInt "z" "1", .ofInt "y" "2"] ∧
      (Ast.Expr.point [.ofInt "y" "2", .ofInt "z" "1"]).eval (.upTo true 1) ⟨0⟩ .withPoint =
        (Ast.Expr.point [.ofInt "z" "1", .ofInt "y" "2"]).eval (.upTo true 1) ⟨0⟩ .withPoint ∧
      ∃ name, Ast.LeastMissing inst.type.fields [.ofInt "z" "1", .ofInt "y" "2"] name ∧
        (Ast.Expr.point [.ofInt "z" "1", .ofInt "y" "2"]).eval (.upTo true 1) ⟨0⟩ .withPoint =
          some (.error ⟨.missingField "Point" name, some default, none⟩, .withPoint) := by
  have hm : Machine.withPoint.store.Ordered :=
    ((Store.Every.empty _ _).add none).defineType ⟨0⟩ (NameMap.sorted_ofList _)
  obtain ⟨inst, hinst, hfields⟩ : ∃ inst,
      Eval.instantiate ⟨0⟩ (.mk ⟨"Point", default⟩ [] default) .withPoint =
        some (.ok inst, .withPoint) ∧
      inst.type.fields = [("x", .simple "int"), ("y", .simple "int"), ("z", .simple "int")] :=
    ⟨_, rfl, rfl⟩
  have hsuit : Ast.InitsSuit (.upTo true 1) ⟨0⟩ .withPoint inst.type.fields
      [.ofInt "z" "1", .ofInt "y" "2"] := by
    rw [hfields]
    refine ⟨by decide, by decide, fun init hinit => ?_⟩
    rcases List.mem_cons.mp hinit with rfl | hinit
    · exact ⟨_, _, _, rfl, rfl, rfl⟩
    · rcases List.mem_singleton.mp hinit with rfl
      exact ⟨_, _, _, rfl, rfl, rfl⟩
  obtain ⟨hperm, -, hmissing, -⟩ := eval_struct_perm hinst hsuit default
  have hx : "x" ∈ inst.type.fields.names := by
    rw [hfields]
    decide
  exact ⟨hm, inst, hinst, hsuit, hperm _ (.swap _ _ _), hmissing hm rfl ⟨"x", hx, by decide⟩⟩

end StructScript
