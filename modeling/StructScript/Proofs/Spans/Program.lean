import StructScript.Proofs.Grammar.Exactness
import StructScript.Proofs.Scanning.Positions
import StructScript.Proofs.Spans.Nested
import StructScript.Session

/-!
# The spans of programs

Every node of a parse tree is laid over its tokens, so the spans of the abstract syntax of a parsed
program are nested and ordered. The tokens of a source text ascend, since each of them has a
character.

Main result: `Ast.Program.spans_nested`.
-/

namespace StructScript

open Outline (node LaidOver)

namespace ParseTree

/-! ### Types, places and struct definitions -/

/-- The items of a list are laid over its tokens if each one is laid over its own. -/
theorem Separated.laidOver {α : Type} {outline : α → Outline Stretch} {yield : α → List Token}
    (h : ∀ a, LaidOver [outline a] (yield a)) (items : Separated α) :
    LaidOver (items.values.map outline) (Separated.yield yield items) := by
  induction items with
  | nil => exact .nil
  | cons item rest ih =>
      obtain ⟨a, _ | separator⟩ := item
      · exact (h a).append ih
      · exact (h a).append (.skip separator ih)

/-- A name is laid over its token. -/
theorem laidOver_name (name : Token) : LaidOver [nameOutline name] [name] := .name name .nil

mutual

/-- A type is laid over its tokens: its name, then its arguments between brackets. -/
theorem TypeRef.laidOver : (type : TypeRef) → LaidOver [type.outline] type.yield
  | .plain name => .whole rfl rfl (.name name .nil)
  | .applied name lbracket args rbracket => by
      refine .whole rfl (getLast?_yield _) (.name name (.skip lbracket ?_))
      exact (TypeRef.laidOver_args args).behind [rbracket]

/-- Type arguments are laid over theirs, with the separators between them skipped. -/
theorem TypeRef.laidOver_args : (args : List (Item TypeRef)) →
    LaidOver (outline.argsOutlines args) (yield.argsYield args)
  | [] => .nil
  | ⟨type, none⟩ :: rest => type.laidOver.append (TypeRef.laidOver_args rest)
  | ⟨type, some separator⟩ :: rest =>
      type.laidOver.append (.skip separator (TypeRef.laidOver_args rest))

end

/-- A place is laid over its tokens, by induction on the fields. -/
theorem Place.laidOver : (p : Place) → LaidOver [p.outline] p.yield
  | .var name => laidOver_name name
  | .field base arrow name => by
      have hfirst : (field base arrow name).yield.head? = some base.firstToken := by
        rw [yield, base.yield_eq_cons]
        rfl
      refine .whole hfirst (Place.getLast?_yield _) ?_
      exact base.laidOver.append (.skip arrow (.name name .nil))

/-- The span of a type reaches from its first token to its last. -/
theorem TypeRef.span_toAst (type : TypeRef) :
    type.toAst.span = type.firstToken.spanTo type.lastToken := by
  cases type <;> rfl

/-- A group of fields runs from its first name to its semicolon, or to the end of its type. -/
theorem FieldGroup.laidOver (g : FieldGroup) : LaidOver [g.outline] g.yield := by
  obtain ⟨names, type, semicolon⟩ := g
  have hnames := Separated.laidOver laidOver_name names
  have hparts := (hnames.append type.laidOver).behind semicolon.toList
  cases names with
  | nil =>
      have hspan : (⟨[], type, semicolon⟩ : FieldGroup).toAst.span =
          type.firstToken.spanTo type.lastToken := type.span_toAst
      have hcovered : type.yield.Sublist (⟨[], type, semicolon⟩ : FieldGroup).yield :=
        List.sublist_append_left _ _
      refine .spanning hcovered type.laidOver ?_ ?_
      · rw [hspan, type.yield_eq_cons]
        exact ⟨type.name, rfl, rfl⟩
      · rw [hspan]
        exact ⟨type.lastToken, type.getLast?_yield, rfl⟩
  | cons first rest =>
      refine .spanning (.refl _) hparts ⟨first.value, rfl, rfl⟩ ?_
      cases semicolon with
      | none =>
          refine ⟨type.lastToken, ?_, ?_⟩
          · simp [yield, itemYield, type.getLast?_yield]
          · simp [toAst, type.span_toAst, Span.join, Separated.values, Token.spanTo]
      | some semicolon => exact ⟨semicolon, by simp [yield, itemYield], rfl⟩

/-- The parameters of a struct definition are laid over their names between brackets. -/
theorem StructDef.laidOver_params (d : StructDef) :
    LaidOver (d.paramNames.map nameOutline) (d.params.elim [] TypeParams.yield) := by
  unfold paramNames
  cases d.params with
  | none => exact .nil
  | some params =>
      have hnames := Separated.laidOver laidOver_name params.names
      exact .skip params.lbracket (hnames.behind [params.rbracket])

/-- Field groups are laid over their tokens one after another. -/
theorem FieldGroup.laidOver_all (groups : List FieldGroup) :
    LaidOver (groups.map FieldGroup.outline) (groups.flatMap FieldGroup.yield) := by
  induction groups with
  | nil => exact .nil
  | cons g rest ih =>
      rw [List.flatMap_cons]
      exact g.laidOver.append ih

/-- A struct definition is laid over its tokens. -/
theorem StructDef.laidOver (d : StructDef) : LaidOver [d.outline] d.yield := by
  refine .whole rfl (by simp [yield, List.getLast?_cons]) (.skip d.structKw ?_)
  refine d.laidOver_params.append (.skip d.lbrace ?_)
  exact (FieldGroup.laidOver_all d.groups).behind [d.rbrace]

/-- A parameter is laid over its name and its type. -/
theorem Param.laidOver (p : Param) : LaidOver [p.outline] p.yield :=
  .unmarked (.name p.name p.type.laidOver)

/-! ### Expressions and statements -/

/-- The last token that is left of an expression without its groups is where its span ends. -/
theorem Expr.stop_outline : (e : Expr) →
    ∃ last ∈ e.outline.tokens.getLast?, last.position = e.span.stop
  | .literal _ token => ⟨token, rfl, rfl⟩
  | .place p => ⟨p.lastToken, p.getLast?_yield, rfl⟩
  | .struct .. | .unary .. | .binary .. | .call .. | .func .. => ⟨_, Expr.getLast?_yield _, rfl⟩
  | .group _ inner _ => inner.stop_outline

mutual

/-- An expression is laid over its tokens; that of a group is laid over those between the
parentheses. -/
theorem Expr.laidOver : (e : Expr) → LaidOver [e.outline] e.yield
  | .literal kind token => .whole rfl rfl .nil
  | .place p => .whole (Expr.place p).head?_yield (Expr.place p).getLast?_yield p.laidOver
  | .struct type lbrace inits rbrace => by
      refine .whole (Expr.head?_yield _) (Expr.getLast?_yield _) ?_
      exact type.laidOver.append (.skip lbrace ((Expr.laidOver_inits inits).behind [rbrace]))
  | .unary op opToken operand => by
      refine .whole (Expr.head?_yield _) (Expr.getLast?_yield _) ?_
      exact .skip opToken operand.laidOver
  | .binary left op opToken right => by
      refine .whole (Expr.head?_yield _) (Expr.getLast?_yield _) ?_
      exact left.laidOver.append (.skip opToken right.laidOver)
  | .group lparen inner rparen => .skip lparen (inner.laidOver.behind [rparen])
  | .call callee lparen args rparen => by
      refine .whole (Expr.head?_yield _) (Expr.getLast?_yield _) ?_
      exact callee.laidOver.append (.skip lparen ((Expr.laidOver_args args).behind [rparen]))
  | .func funcKw lparen params rparen result lbrace body rbrace => by
      have hresult : LaidOver (result.toList.map TypeRef.outline)
          (result.elim [] TypeRef.yield) := by
        cases result with
        | none => exact .nil
        | some type => exact type.laidOver
      have hparams := Separated.laidOver Param.laidOver params
      have hbody := (Stmt.laidOver_all body).behind [rbrace]
      refine .whole (Expr.head?_yield _) (Expr.getLast?_yield _) ?_
      refine .whole (Expr.head?_yield _) (Expr.getLast?_yield _) (.skip funcKw (.skip lparen ?_))
      exact hparams.append (.skip rparen (hresult.append (.skip lbrace hbody)))

/-- An initialiser is laid over its tokens. -/
theorem FieldInit.laidOver : (i : FieldInit) → LaidOver [i.outline] i.yield
  | ⟨name, colon, value⟩ => by
      -- the parentheses of the value are not covered
      have hvalue : value.outline.tokens.Sublist value.yield := by
        have hinside := value.laidOver.inside
        rwa [List.flatMap_singleton] at hinside
      have hparts : LaidOver [nameOutline name, value.outline] (name :: value.outline.tokens) :=
        .name name ⟨by simp, value.laidOver.laid⟩
      obtain ⟨last, hlast, hstop⟩ := value.stop_outline
      refine .spanning ((hvalue.cons colon).cons_cons name) hparts ⟨name, rfl, rfl⟩ ?_
      exact ⟨last, by simp [List.getLast?_cons, Option.mem_def.mp hlast], hstop⟩

/-- Initialisers are laid over theirs, with the separators between them skipped. -/
theorem Expr.laidOver_inits : (inits : List (Item FieldInit)) →
    LaidOver (Expr.initsOutlines inits) (Expr.initsYield inits)
  | [] => .nil
  | ⟨init, none⟩ :: rest => init.laidOver.append (Expr.laidOver_inits rest)
  | ⟨init, some separator⟩ :: rest =>
      init.laidOver.append (.skip separator (Expr.laidOver_inits rest))

/-- So are the arguments of a call. -/
theorem Expr.laidOver_args : (args : List (Item Expr)) →
    LaidOver (Expr.argsOutlines args) (Expr.argsYield args)
  | [] => .nil
  | ⟨arg, none⟩ :: rest => arg.laidOver.append (Expr.laidOver_args rest)
  | ⟨arg, some separator⟩ :: rest =>
      arg.laidOver.append (.skip separator (Expr.laidOver_args rest))

/-- A statement is laid over its tokens. -/
theorem Stmt.laidOver : (s : Stmt) → LaidOver [s.outline] s.yield
  | .typeDef typeKw name eq definition semicolon => by
      refine .whole rfl (Stmt.getLast?_yield _) (.skip typeKw ?_)
      exact name.laidOver.append (.skip eq (definition.laidOver.behind [semicolon]))
  | .define letKw target eq value semicolon => by
      refine .whole rfl (Stmt.getLast?_yield _) (.skip letKw ?_)
      exact target.laidOver.append (.skip eq (value.laidOver.behind [semicolon]))
  | .assign setKw target eq value semicolon => by
      refine .whole rfl (Stmt.getLast?_yield _) (.skip setKw ?_)
      exact target.laidOver.append (.skip eq (value.laidOver.behind [semicolon]))
  | .ret returnKw (some value) semicolon => by
      refine .whole rfl (Stmt.getLast?_yield _) (.skip returnKw ?_)
      exact value.laidOver.behind [semicolon]
  | .ret returnKw none semicolon => .whole rfl rfl .nil
  | .expr e semicolon => e.laidOver.behind [semicolon]

/-- Statements are laid over their tokens one after another. -/
theorem Stmt.laidOver_all : (stmts : List Stmt) →
    LaidOver (Stmt.outlines stmts) (Stmt.listYield stmts)
  | [] => .nil
  | stmt :: rest => stmt.laidOver.append (Stmt.laidOver_all rest)

end

/-- All nodes of a program are laid over tokens of its yield. -/
theorem Program.laid_outline (p : Program) : p.outline.Laid := by
  have h : LaidOver [p.outline] p.yield :=
    .unmarked ((Stmt.laidOver_all p.stmts).behind p.eof.toList)
  exact h.laid p.outline (List.mem_singleton_self _)

/-- The spans of a program that is parsed from ascending tokens are nested and ordered. -/
theorem Program.nested_outline {tokens : List Token} {table : OperatorTable} {p : Program}
    (h : ofTokens tokens table = .ok p) (hascending : Token.Ascending tokens) :
    p.outline.Nested ∧ ∃ rest, tokens = p.outline.tokens ++ rest := by
  obtain ⟨-, rest, rfl, -⟩ := wellFormed_of_ofTokens h
  have hyield : Token.Ascending p.outline.tokens :=
    hascending.sublist (List.sublist_append_left _ _)
  exact ⟨p.laid_outline.nested hyield, rest, rfl⟩

end ParseTree

/-! ### The tokens of a source text -/

namespace Token

/-- The tokens of a text ascend, without its comments too. -/
theorem ascending_of_scan {source file : String} {tokens : List Token}
    (h : scan source file = .ok tokens) : Ascending (dropComments tokens) :=
  Ascending.sublist (pairwise_offset_of_scan h) List.filter_sublist

end Token

namespace Ast.Program

open ParseTree (Stretch)

/-- A program that a text writes is that of the parse tree of its tokens. -/
theorem exists_of_ofSource {number : Nat} {file text : String} {program : Program}
    (h : ofSource number file text = .ok program) :
    ∃ tokens p, Token.scan text file = .ok tokens ∧
      ParseTree.Program.ofTokens (Token.dropComments tokens) .standard = .ok p ∧
      program = p.toAst number := by
  unfold ofSource at h
  rcases hscan : Token.scan text file with e | tokens
  · simp [hscan] at h
  · rcases hparse : ParseTree.Program.ofTokens (Token.dropComments tokens) .standard with e | p
    · simp [hscan, hparse] at h
    · simp only [hscan, hparse, Except.ok.injEq] at h
      exact ⟨tokens, p, rfl, hparse, h.symm⟩

/-- **Spans are nested and ordered.** Let a program be parsed from tokens whose offsets ascend. Then
the outline of its parse tree, which labels every node with its tokens, is nested, and without the
tokens it is the outline of the abstract syntax. So it is with every source text that is parsed,
since the tokens of a text ascend. -/
theorem spans_nested :
    (∀ tokens table p, ParseTree.Program.ofTokens tokens table = .ok p → Token.Ascending tokens →
      p.outline.Nested ∧ (∃ rest, tokens = p.outline.tokens ++ rest) ∧
        ∀ number, (p.toAst number).outline = p.outline.map Stretch.mark) ∧
    ∀ number file text program, ofSource number file text = .ok program →
      ∃ tokens p, Token.scan text file = .ok tokens ∧
        ParseTree.Program.ofTokens (Token.dropComments tokens) .standard = .ok p ∧
        program = p.toAst number ∧ p.outline.Nested ∧
        (∃ rest, Token.dropComments tokens = p.outline.tokens ++ rest) ∧
        program.outline = p.outline.map Stretch.mark := by
  constructor
  · intro tokens table p h hascending
    obtain ⟨hnested, htokens⟩ := ParseTree.Program.nested_outline h hascending
    exact ⟨hnested, htokens, fun number => p.outline_toAst number⟩
  · intro number file text program h
    obtain ⟨tokens, p, hscan, hparse, rfl⟩ := exists_of_ofSource h
    obtain ⟨hnested, htokens⟩ :=
      ParseTree.Program.nested_outline hparse (Token.ascending_of_scan hscan)
    exact ⟨tokens, p, hscan, hparse, rfl, hnested, htokens, p.outline_toAst number⟩

/-- A call without a closing token behind it, and a text with a variable in parentheses as the value
of a field. -/
theorem spans_nested_group :
    (∃ p, ParseTree.Program.ofTokens [⟨.ident, "f", ⟨"", 3, 1, 4⟩⟩, ⟨.lparen, "(", ⟨"", 4, 1, 5⟩⟩,
        ⟨.rparen, ")", ⟨"", 5, 1, 6⟩⟩, ⟨.semicolon, ";", ⟨"", 9, 2, 1⟩⟩] .standard = .ok p ∧
      p.outline.Nested) ∧
    ∃ (program : Ast.Program) (p : ParseTree.Program),
      ofSource 1 "" "P \x7b x: (y) \x7d;" = .ok program ∧
      program = p.toAst 1 ∧ p.outline.Nested ∧ program.outline = p.outline.map Stretch.mark := by
  constructor
  · obtain ⟨hnested, -⟩ := spans_nested.1 [⟨.ident, "f", ⟨"", 3, 1, 4⟩⟩,
      ⟨.lparen, "(", ⟨"", 4, 1, 5⟩⟩, ⟨.rparen, ")", ⟨"", 5, 1, 6⟩⟩,
      ⟨.semicolon, ";", ⟨"", 9, 2, 1⟩⟩] .standard _ rfl (by unfold Token.Ascending; decide)
    exact ⟨_, rfl, hnested⟩
  · have hparses : (ofSource 1 "" "P \x7b x: (y) \x7d;").isOk = true := by decide +kernel
    rcases h : ofSource 1 "" "P \x7b x: (y) \x7d;" with _ | program
    · rw [h] at hparses
      cases hparses
    · obtain ⟨-, p, -, -, hprogram, hnested, -, houtline⟩ := spans_nested.2 1 "" _ program h
      exact ⟨program, p, rfl, hprogram, hnested, houtline⟩

end Ast.Program

end StructScript
