import StructScript.Proofs.Evaluation.Admission
import StructScript.Proofs.Grammar.Exactness
import StructScript.Proofs.Naming.Regime
import StructScript.Proofs.Scanning.Exactness

/-!
# The names that source texts write

A type is written by a token that is a name or the word `nil`. So the code of a text respects a
naming if the tokens of these two kinds do: each of the pieces of its syntax names types by tokens of
the parse tree (`ParseTree.Expr.code_toAst`, `ParseTree.Stmt.code_toAst`), and the tokens of the
parse tree are among those of the text (`Naming.admitted_of_tokens`). A word with a rule of its own is
not scanned as a name, so `func`, which every function value goes by, is written nowhere as a type
(`Naming.admitted_functionless`).
-/

namespace StructScript

/-- If a token may name a type, it has such a name. -/
def Naming.OfToken (N : Naming) (t : Token) : Prop :=
  ParseTree.IsTypeName t → N.written t.lexeme ∧ N.defined t.lexeme

namespace ParseTree

variable {N : Naming} {table : OperatorTable}

/-- The name of a type is that of its token. -/
@[simp] theorem TypeRef.name_toAst (type : TypeRef) : type.toAst.name.name = type.name.lexeme := by
  cases type <;> rfl

/-! ### Types -/

/-- A type goes by a name that may be written and defined if its tokens do. -/
theorem TypeRef.named_toAst {type : TypeRef} (h : type.WellFormed)
    (ht : ∀ t ∈ type.yield, N.OfToken t) :
    N.written type.toAst.name.name ∧ N.defined type.toAst.name.name := by
  have hname : type.name ∈ type.yield := by
    rw [type.yield_eq_cons]
    exact List.mem_cons_self
  rw [TypeRef.name_toAst]
  exact ht _ hname h.name

/-- So do type arguments. -/
theorem TypeRef.named_args {type : TypeRef} (h : type.WellFormed)
    (ht : ∀ t ∈ type.yield, N.OfToken t) : ∀ arg ∈ type.toAst.args, N.written arg.name.name := by
  cases h with
  | plain => exact nofun
  | @applied name lbracket rbracket args hname hlbracket hargs hnonempty hvalues hrbracket =>
      intro arg harg
      change arg ∈ TypeRef.toAst.argsToAst args at harg
      rw [TypeRef.argsToAst_eq] at harg
      obtain ⟨type, htype, rfl⟩ := List.mem_map.mp harg
      refine (TypeRef.named_toAst (hvalues type htype) fun t hin => ht t ?_).1
      rw [TypeRef.yield, TypeRef.argsYield_eq]
      have hargs := Separated.mem_yield htype hin
      exact List.mem_cons_of_mem _ (List.mem_cons_of_mem _ (List.mem_append_left _ hargs))

/-- So do the types of declared fields. -/
theorem StructDef.named_groups {d : StructDef} (h : d.WellFormed)
    (ht : ∀ t ∈ d.yield, N.OfToken t) :
    ∀ group ∈ d.toAst.groups, N.written group.type.name.name := by
  intro group hgroup
  obtain ⟨g, hg, rfl⟩ := List.mem_map.mp hgroup
  have hfields (t : Token) (hin : t ∈ g.type.yield) : t ∈ d.groups.flatMap FieldGroup.yield := by
    refine List.mem_flatMap.mpr ⟨g, hg, ?_⟩
    exact List.mem_append_left _ (List.mem_append_right _ hin)
  refine (TypeRef.named_toAst (h.groups g hg).2 fun t hin => ht t ?_).1
  have hfield := hfields t hin
  simp only [StructDef.yield, List.mem_cons, List.mem_append]
  exact .inr (.inr (.inr (.inl hfield)))

/-- So do the types of parameters. -/
theorem Param.named_toAst {params : Separated Param}
    (h : ∀ param ∈ Separated.values params, param.WellFormed)
    (ht : ∀ t ∈ Separated.yield Param.yield params, N.OfToken t) :
    ∀ param ∈ (Separated.values params).map Param.toAst, N.written param.type.name.name := by
  intro param hparam
  obtain ⟨p, hp, rfl⟩ := List.mem_map.mp hparam
  refine (TypeRef.named_toAst (h p hp).type fun t hin => ht t ?_).1
  exact Separated.mem_yield hp (List.mem_cons_of_mem _ hin)

/-! ### Expressions and statements -/

variable (n : Nat)

mutual

/-- The code of an expression names types by tokens of its parse tree. -/
theorem Expr.code_toAst : (e : Expr) → e.WellFormed table → (∀ t ∈ e.yield, N.OfToken t) →
    N.Code (.expr (e.toAst n))
  | .literal _ _, _, _ => by
      rw [Expr.toAst]
      exact Naming.code_of_parts trivial nofun
  | .place _, _, _ => by
      rw [Expr.toAst]
      exact Naming.code_of_parts trivial nofun
  | .struct type lbrace inits rbrace, h, ht => by
      cases h with
      | struct _ _ htype _ _ hvalues _ =>
      simp only [Expr.yield, List.forall_mem_append, List.forall_mem_cons] at ht
      obtain ⟨httype, -, htinits, -⟩ := ht
      have hinits := Expr.code_initsToAst inits hvalues htinits
      rw [Expr.toAst]
      refine Naming.code_of_parts (TypeRef.named_args htype httype) fun part hpart => ?_
      cases hpart with
      | init hi => exact hinits _ hi
  | .unary op opToken operand, h, ht => by
      cases h with
      | unary _ _ hoperand _ =>
      simp only [Expr.yield, List.forall_mem_cons] at ht
      have hcode := Expr.code_toAst operand hoperand ht.2
      rw [Expr.toAst]
      refine Naming.code_of_parts trivial fun part hpart => ?_
      cases hpart with
      | operand => exact hcode
  | .binary left op opToken right, h, ht => by
      cases h with
      | binary _ _ hleft hright _ _ =>
      simp only [Expr.yield, List.forall_mem_append, List.forall_mem_cons] at ht
      obtain ⟨htleft, -, htright⟩ := ht
      have hcodeLeft := Expr.code_toAst left hleft htleft
      have hcodeRight := Expr.code_toAst right hright htright
      rw [Expr.toAst]
      refine Naming.code_of_parts trivial fun part hpart => ?_
      cases hpart with
      | left => exact hcodeLeft
      | right => exact hcodeRight
  | .group lparen inner rparen, h, ht => by
      cases h with
      | group _ hinner _ =>
      simp only [Expr.yield, List.forall_mem_append, List.forall_mem_cons] at ht
      rw [Expr.toAst]
      exact Expr.code_toAst inner hinner ht.2.1
  | .call callee lparen args rparen, h, ht => by
      cases h with
      | call _ _ _ _ hvalues _ =>
      simp only [Expr.yield, List.forall_mem_append, List.forall_mem_cons] at ht
      obtain ⟨-, -, htargs, -⟩ := ht
      have hargs := Expr.code_argsToAst args hvalues htargs
      rw [Expr.toAst]
      refine Naming.code_of_parts trivial fun part hpart => ?_
      cases hpart with
      | arg he => exact hargs _ he
  | .func funcKw lparen params rparen result lbrace body rbrace, h, ht => by
      cases h with
      | func _ _ _ hparams _ _ _ hbody _ =>
      simp only [Expr.yield, List.forall_mem_append, List.forall_mem_cons] at ht
      obtain ⟨-, -, htparams, -, -, -, htbody, -⟩ := ht
      have hstmts := Stmt.code_listToAst body hbody htbody
      rw [Expr.toAst]
      refine Naming.code_of_parts trivial fun part hpart => ?_
      cases hpart with
      | func =>
        refine Naming.code_of_parts (Param.named_toAst hparams htparams) fun part hpart => ?_
        cases hpart with
        | body hstmt => exact hstmts _ hstmt

/-- So does the code of initialisers. -/
theorem Expr.code_initsToAst : (inits : List (Item FieldInit)) →
    (∀ init ∈ Separated.values inits, FieldInit.WellFormed table init) →
    (∀ t ∈ Expr.initsYield inits, N.OfToken t) →
    ∀ i ∈ Expr.initsToAst n inits, N.Code (.init i)
  | [], _, _ => by
      rw [Expr.initsToAst]
      exact nofun
  | ⟨⟨name, colon, value⟩, separator⟩ :: rest, h, ht => by
      obtain ⟨hfirst, hrest⟩ := List.forall_mem_cons.mp h
      cases hfirst with
      | mk _ _ hvalue =>
      simp only [Expr.initsYield, FieldInit.yield, List.forall_mem_append, List.forall_mem_cons]
        at ht
      obtain ⟨⟨-, -, htvalue⟩, -, htrest⟩ := ht
      have hcode := Expr.code_toAst value hvalue htvalue
      rw [Expr.initsToAst]
      refine List.forall_mem_cons.mpr ⟨?_, Expr.code_initsToAst rest hrest htrest⟩
      refine Naming.code_of_parts trivial fun part hpart => ?_
      cases hpart with
      | initValue => exact hcode

/-- So does the code of arguments. -/
theorem Expr.code_argsToAst : (args : List (Item Expr)) →
    (∀ arg ∈ Separated.values args, Expr.WellFormed table arg) →
    (∀ t ∈ Expr.argsYield args, N.OfToken t) → ∀ e ∈ Expr.argsToAst n args, N.Code (.expr e)
  | [], _, _ => by
      rw [Expr.argsToAst]
      exact nofun
  | ⟨arg, separator⟩ :: rest, h, ht => by
      obtain ⟨hfirst, hrest⟩ := List.forall_mem_cons.mp h
      simp only [Expr.argsYield, List.forall_mem_append] at ht
      obtain ⟨htarg, -, htrest⟩ := ht
      rw [Expr.argsToAst]
      refine List.forall_mem_cons.mpr ⟨?_, Expr.code_argsToAst rest hrest htrest⟩
      exact Expr.code_toAst arg hfirst htarg

/-- The code of a statement names types by tokens of its parse tree. -/
theorem Stmt.code_toAst : (stmt : Stmt) → stmt.WellFormed table →
    (∀ t ∈ stmt.yield, N.OfToken t) → N.Code (.stmt (stmt.toAst n))
  | .typeDef typeKw name eq definition semicolon, h, ht => by
      cases h with
      | typeDef _ hname _ hdefinition _ =>
      simp only [Stmt.yield, List.forall_mem_append, List.forall_mem_cons] at ht
      obtain ⟨-, htname, -, htdefinition, -⟩ := ht
      have hgroups := StructDef.named_groups hdefinition htdefinition
      rw [Stmt.toAst]
      exact Naming.code_of_parts ⟨(TypeRef.named_toAst hname htname).2, hgroups⟩ nofun
  | .define letKw target eq value semicolon, h, ht => by
      cases h with
      | define _ _ _ hvalue _ =>
      simp only [Stmt.yield, List.forall_mem_append, List.forall_mem_cons] at ht
      obtain ⟨-, -, -, htvalue, -⟩ := ht
      have hcode := Expr.code_toAst value hvalue htvalue
      rw [Stmt.toAst]
      refine Naming.code_of_parts trivial fun part hpart => ?_
      cases hpart with
      | defined => exact hcode
  | .assign setKw target eq value semicolon, h, ht => by
      cases h with
      | assign _ _ _ hvalue _ =>
      simp only [Stmt.yield, List.forall_mem_append, List.forall_mem_cons] at ht
      obtain ⟨-, -, -, htvalue, -⟩ := ht
      have hcode := Expr.code_toAst value hvalue htvalue
      rw [Stmt.toAst]
      refine Naming.code_of_parts trivial fun part hpart => ?_
      cases hpart with
      | assigned => exact hcode
  | .ret returnKw none semicolon, _, _ => by
      rw [Stmt.toAst]
      exact Naming.code_of_parts trivial nofun
  | .ret returnKw (some value) semicolon, h, ht => by
      cases h with
      | ret _ hvalue _ =>
      simp only [Stmt.yield, List.forall_mem_append, List.forall_mem_cons] at ht
      have hcode := Expr.code_toAst value (hvalue value rfl) ht.2.1
      rw [Stmt.toAst]
      refine Naming.code_of_parts trivial fun part hpart => ?_
      cases hpart with
      | returned => exact hcode
  | .expr e semicolon, h, ht => by
      cases h with
      | expr he _ =>
      simp only [Stmt.yield, List.forall_mem_append] at ht
      have hcode := Expr.code_toAst e he ht.1
      rw [Stmt.toAst]
      refine Naming.code_of_parts trivial fun part hpart => ?_
      cases hpart with
      | statement => exact hcode

/-- So does the code of statements. -/
theorem Stmt.code_listToAst : (stmts : List Stmt) → (∀ stmt ∈ stmts, stmt.WellFormed table) →
    (∀ t ∈ Stmt.listYield stmts, N.OfToken t) →
    ∀ stmt ∈ Stmt.listToAst n stmts, N.Code (.stmt stmt)
  | [], _, _ => by
      rw [Stmt.listToAst]
      exact nofun
  | stmt :: rest, h, ht => by
      obtain ⟨hfirst, hrest⟩ := List.forall_mem_cons.mp h
      simp only [Stmt.listYield, List.forall_mem_append] at ht
      rw [Stmt.listToAst]
      refine List.forall_mem_cons.mpr ⟨?_, Stmt.code_listToAst rest hrest ht.2⟩
      exact Stmt.code_toAst stmt hfirst ht.1

end

end ParseTree

/-! ### Texts -/

/-- Each token of a text but the last is named by a rule of the language. -/
theorem Token.names_of_scan {source file : String} {tokens : List Token}
    (h : scan source file = .ok tokens) :
    ∀ t ∈ tokens, t.kind = .eof ∨ Rule.Names t.kind t.lexeme.toList := by
  obtain ⟨pieces, hcut, rfl⟩ := exists_cut_of_scan h
  intro t ht
  rcases List.mem_append.mp ht with ht | ht
  · obtain ⟨behind, hlexeme⟩ := hcut.exists_lexeme _ t ht
    exact .inr hlexeme.names
  · cases List.mem_singleton.mp ht
    exact .inl rfl

namespace Naming

/-- The code of a text respects a naming if its tokens do. -/
theorem admitted_of_tokens (N : Naming) {strict : Bool} {text : String}
    (h : ∀ file tokens, Token.scan text file = .ok tokens → ∀ t ∈ tokens, N.OfToken t) :
    Session.Admitted (N.regime strict) text := by
  intro number file program hprogram
  unfold Ast.Program.ofSource at hprogram
  split at hprogram
  · cases hprogram
  · rename_i tokens htokens
    split at hprogram
    · cases hprogram
    · rename_i tree htree
      cases hprogram
      obtain ⟨hwellFormed, rest, hyield, -⟩ := ParseTree.Program.wellFormed_of_ofTokens htree
      refine ParseTree.Stmt.code_listToAst number tree.stmts hwellFormed.stmts fun t ht => ?_
      have hmem : t ∈ Token.dropComments tokens := by
        rw [hyield, ParseTree.Program.yield]
        exact List.mem_append_left _ (List.mem_append_left _ ht)
      exact h file tokens htokens t ((List.mem_filter.mp hmem).1)

/-- The naming in which no type goes by the name that functions go by. -/
def functionless : Naming := ⟨(· ≠ "func"), (· ≠ "func")⟩

/-- No source text writes `func` as a type. -/
theorem admitted_functionless (strict : Bool) (text : String) :
    Session.Admitted (functionless.regime strict) text := by
  refine admitted_of_tokens functionless fun file tokens htokens t ht htype => ?_
  have hrule : Rule.Names .funcKw "func".toList :=
    ⟨⟨.funcKw, .exact "func".toList⟩, by decide, rfl, .exact _, nofun⟩
  have hname : t.lexeme ≠ "func" := by
    intro hfunc
    have hkind : t.kind = .eof ∨ t.kind = .funcKw :=
      (Token.names_of_scan htokens t ht).imp_right fun hnames =>
        Rule.Names.unique hnames (hfunc ▸ hrule)
    rcases htype with h | h <;> rw [h] at hkind <;> simp at hkind
  exact ⟨hname, hname⟩

end Naming

end StructScript
