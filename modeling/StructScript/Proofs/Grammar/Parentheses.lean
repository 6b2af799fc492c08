import StructScript.Proofs.Grammar.Exactness
import StructScript.Proofs.Grammar.Surroundings
import StructScript.Proofs.Layout.Ast

/-!
# Redundant parentheses

A group binds as tightly as can be asked, and nothing is left of it in the abstract syntax. So
wherever an expression stands in a program, the expression in parentheses may stand as well, and the
program means the same.

`Part.Replaces` says of a part of a tree that it may stand for another one; it is carried from a
part to the trees that the part stands in.

Main result: `Program.ofTokens_parenthesized`.
-/

namespace StructScript.ParseTree

/-! ### Lists of trees -/

/-- One item of a list may be changed for another, without a change of the separators. -/
theorem Separated.Punctuated.replace {α : Type} {kind : TokenKind} {trailing : Bool}
    {before after : Separated α} {a : α} {separator : Option Token} (b : α)
    (h : Punctuated kind trailing (before ++ ⟨a, separator⟩ :: after)) :
    Punctuated kind trailing (before ++ ⟨b, separator⟩ :: after) := by
  induction before with
  | nil => cases separator <;> exact h
  | cons first rest ih =>
      obtain ⟨value, _ | token⟩ := first
      · exact absurd h (by simp [Punctuated])
      · obtain ⟨hkind, -, hrest⟩ := h
        exact ⟨hkind, by simp, ih hrest⟩

/-- An initialiser. -/
def FieldInit.toAst (source : Nat) (i : FieldInit) : Ast.FieldInit :=
  ⟨identOf i.name, i.value.toAst source, i.name.span.join (i.value.toAst source).span⟩

/-- Initialisers without their separators stand for what each of them stands for. -/
theorem Expr.initsToAst_eq (source : Nat) (inits : Separated FieldInit) :
    Expr.initsToAst source inits = inits.values.map (FieldInit.toAst source) := by
  induction inits with
  | nil => rfl
  | cons item rest ih =>
      obtain ⟨⟨name, colon, value⟩, separator⟩ := item
      rw [Expr.initsToAst, ih]
      rfl

/-- So do the arguments of a call. -/
theorem Expr.argsToAst_eq (source : Nat) (args : Separated Expr) :
    Expr.argsToAst source args = args.values.map (Expr.toAst source) := by
  induction args with
  | nil => rfl
  | cons item rest ih => exact congrArg (_ :: ·) ih

/-- Statements stand for what each of them stands for. -/
theorem Stmt.listToAst_eq (source : Nat) (stmts : List Stmt) :
    Stmt.listToAst source stmts = stmts.map (Stmt.toAst source) := by
  induction stmts with
  | nil => rfl
  | cons first rest ih => rw [Stmt.listToAst, ih, List.map_cons]

/-! ### Replacing a part -/

/-- Spans without their places are all one. -/
theorem relocate_default_span (span : Span) :
    relocate .forgetPlaces span = ⟨default, default⟩ := rfl

/-- The second expression may stand wherever the first one does, by the grammar of the table, and
means the same. -/
structure Expr.Replaces (table : OperatorTable) (e e' : Expr) : Prop where
  formed : e.WellFormed table → e'.WellFormed table
  infixPrecedence : ∀ p ∈ e'.infixPrecedence? table, p ∈ e.infixPrecedence? table
  rightPrecedence : ∀ p ∈ e'.rightPrecedence? table, p ∈ e.rightPrecedence? table
  ast : ∀ source, EqUpToPlaces (e.toAst source) (e'.toAst source)

namespace Part

/-- The second part may stand wherever the first one does, by the grammar of the table, and means
the same. -/
inductive Replaces (table : OperatorTable) : Part → Part → Prop where
  | expr {e e' : Expr} (h : e.Replaces table e') : Replaces table (.expr e) (.expr e')
  | init {i i' : FieldInit} (hformed : i.WellFormed table → i'.WellFormed table)
      (hast : ∀ source, EqUpToPlaces (i.toAst source) (i'.toAst source)) :
      Replaces table (.init i) (.init i')
  | stmt {s s' : Stmt} (hformed : s.WellFormed table → s'.WellFormed table)
      (hast : ∀ source, EqUpToPlaces (s.toAst source) (s'.toAst source)) :
      Replaces table (.stmt s) (.stmt s')

namespace Replaces

variable {table : OperatorTable} {e e' : Expr}

/-- In a struct literal an initialiser may be replaced. -/
theorem struct {i i' : FieldInit} (h : Replaces table (.init i) (.init i')) (type : TypeRef)
    (lbrace : Token) (before : Separated FieldInit) (separator : Option Token)
    (after : Separated FieldInit) (rbrace : Token) :
    Replaces table (.expr (.struct type lbrace (before ++ ⟨i, separator⟩ :: after) rbrace))
      (.expr (.struct type lbrace (before ++ ⟨i', separator⟩ :: after) rbrace)) := by
  obtain - | ⟨hformed, hast⟩ := h
  refine .expr ⟨fun h => ?_, nofun, nofun, fun source => ?_⟩
  · cases h with
    | struct hrule hname htype hlbrace hinits hvalues hrbrace =>
        refine .struct hrule hname htype hlbrace (hinits.replace i') ?_ hrbrace
        simp only [Separated.values, List.map_append, List.map_cons, List.forall_mem_append,
          List.forall_mem_cons] at hvalues ⊢
        exact ⟨hvalues.1, hformed hvalues.2.1, hvalues.2.2⟩
  · have hi : relocate _ (i.toAst source) = _ := hast source
    simp [EqUpToPlaces, Expr.toAst, Expr.initsToAst_eq, Separated.values, hi]

/-- In an initialiser the value may be replaced. -/
theorem initValue (h : e.Replaces table e') (name colon : Token) :
    Replaces table (.init ⟨name, colon, e⟩) (.init ⟨name, colon, e'⟩) := by
  refine .init (fun hi => ?_) fun source => ?_
  · cases hi with
    | mk hname hcolon hvalue => exact .mk hname hcolon (h.formed hvalue)
  · have he : relocate _ (e.toAst source) = _ := h.ast source
    simp [EqUpToPlaces, FieldInit.toAst, relocate_default_span, he]

/-- In a prefix expression the operand may be replaced. -/
theorem unary (h : e.Replaces table e') (op : UnaryOp) (opToken : Token) :
    Replaces table (.expr (.unary op opToken e)) (.expr (.unary op opToken e')) := by
  refine .expr ⟨fun h' => ?_, nofun, nofun, fun source => ?_⟩
  · cases h' with
    | unary hrule hop hoperand hbinds =>
        exact .unary hrule hop (h.formed hoperand) fun q hq => hbinds q (h.infixPrecedence q hq)
  · have he : relocate _ (e.toAst source) = _ := h.ast source
    simp [EqUpToPlaces, Expr.toAst, relocate_default_span, he]

/-- In an infix expression the left operand may be replaced. -/
theorem left (h : e.Replaces table e') (op : BinaryOp) (opToken : Token) (right : Expr) :
    Replaces table (.expr (.binary e op opToken right)) (.expr (.binary e' op opToken right)) := by
  refine .expr ⟨fun h' => ?_, fun _ => id, fun _ => id, fun source => ?_⟩
  · cases h' with
    | binary hrule hop hleft hright hleftBinds hrightBinds =>
        exact .binary hrule hop (h.formed hleft) hright
          (fun q hq => hleftBinds q (h.rightPrecedence q hq)) hrightBinds
  · have he : relocate _ (e.toAst source) = _ := h.ast source
    simp [EqUpToPlaces, Expr.toAst, relocate_default_span, he]

/-- In an infix expression the right operand may be replaced. -/
theorem right (h : e.Replaces table e') (left : Expr) (op : BinaryOp) (opToken : Token) :
    Replaces table (.expr (.binary left op opToken e)) (.expr (.binary left op opToken e')) := by
  refine .expr ⟨fun h' => ?_, fun _ => id, fun _ => id, fun source => ?_⟩
  · cases h' with
    | binary hrule hop hleft hright hleftBinds hrightBinds =>
        exact .binary hrule hop hleft (h.formed hright) hleftBinds
          fun q hq => hrightBinds q (h.infixPrecedence q hq)
  · have he : relocate _ (e.toAst source) = _ := h.ast source
    simp [EqUpToPlaces, Expr.toAst, relocate_default_span, he]

/-- In parentheses the expression may be replaced. -/
theorem group (h : e.Replaces table e') (lparen rparen : Token) :
    Replaces table (.expr (.group lparen e rparen)) (.expr (.group lparen e' rparen)) := by
  refine .expr ⟨fun h' => ?_, nofun, nofun, h.ast⟩
  cases h' with
  | group hrule hinner hrparen => exact .group hrule (h.formed hinner) hrparen

/-- In a call an argument may be replaced. -/
theorem arg (h : e.Replaces table e') (callee : Place) (lparen : Token) (before : Separated Expr)
    (separator : Option Token) (after : Separated Expr) (rparen : Token) :
    Replaces table (.expr (.call callee lparen (before ++ ⟨e, separator⟩ :: after) rparen))
      (.expr (.call callee lparen (before ++ ⟨e', separator⟩ :: after) rparen)) := by
  refine .expr ⟨fun h' => ?_, nofun, nofun, fun source => ?_⟩
  · cases h' with
    | call hleading hcallee hrule hargs hvalues hrparen =>
        refine .call hleading hcallee hrule (hargs.replace e') ?_ hrparen
        simp only [Separated.values, List.map_append, List.map_cons, List.forall_mem_append,
          List.forall_mem_cons] at hvalues ⊢
        exact ⟨hvalues.1, h.formed hvalues.2.1, hvalues.2.2⟩
  · have he : relocate _ (e.toAst source) = _ := h.ast source
    simp [EqUpToPlaces, Expr.toAst, Expr.argsToAst_eq, Separated.values, relocate_default_span, he]

/-- In a function literal a statement of the body may be replaced. -/
theorem body {s s' : Stmt} (h : Replaces table (.stmt s) (.stmt s')) (funcKw lparen : Token)
    (params : Separated Param) (rparen : Token) (result : Option TypeRef) (lbrace : Token)
    (before after : List Stmt) (rbrace : Token) :
    Replaces table
      (.expr (.func funcKw lparen params rparen result lbrace (before ++ s :: after) rbrace))
      (.expr (.func funcKw lparen params rparen result lbrace (before ++ s' :: after) rbrace)) := by
  obtain - | - | ⟨hformed, hast⟩ := h
  refine .expr ⟨fun h' => ?_, nofun, nofun, fun source => ?_⟩
  · cases h' with
    | func hrule hlparen hparams hvalues hrparen hresult hlbrace hbody hrbrace =>
        refine .func hrule hlparen hparams hvalues hrparen hresult hlbrace ?_ hrbrace
        simp only [List.forall_mem_append, List.forall_mem_cons] at hbody ⊢
        exact ⟨hbody.1, hformed hbody.2.1, hbody.2.2⟩
  · have hs : relocate _ (s.toAst source) = _ := hast source
    simp [EqUpToPlaces, Expr.toAst, Stmt.listToAst_eq, relocate_default_span, hs]

/-- In a definition the value may be replaced. -/
theorem define (h : e.Replaces table e') (letKw : Token) (target : Place) (eq semicolon : Token) :
    Replaces table (.stmt (.define letKw target eq e semicolon))
      (.stmt (.define letKw target eq e' semicolon)) := by
  refine .stmt (fun h' => ?_) fun source => ?_
  · cases h' with
    | define hletKw htarget heq hvalue hsemicolon =>
        exact .define hletKw htarget heq (h.formed hvalue) hsemicolon
  · have he : relocate _ (e.toAst source) = _ := h.ast source
    simp [EqUpToPlaces, Stmt.toAst, relocate_default_span, he]

/-- In an assignment the value may be replaced. -/
theorem assign (h : e.Replaces table e') (setKw : Token) (target : Place) (eq semicolon : Token) :
    Replaces table (.stmt (.assign setKw target eq e semicolon))
      (.stmt (.assign setKw target eq e' semicolon)) := by
  refine .stmt (fun h' => ?_) fun source => ?_
  · cases h' with
    | assign hsetKw htarget heq hvalue hsemicolon =>
        exact .assign hsetKw htarget heq (h.formed hvalue) hsemicolon
  · have he : relocate _ (e.toAst source) = _ := h.ast source
    simp [EqUpToPlaces, Stmt.toAst, relocate_default_span, he]

/-- In a return the value may be replaced. -/
theorem ret (h : e.Replaces table e') (returnKw semicolon : Token) :
    Replaces table (.stmt (.ret returnKw (some e) semicolon))
      (.stmt (.ret returnKw (some e') semicolon)) := by
  refine .stmt (fun h' => ?_) fun source => ?_
  · cases h' with
    | ret hreturnKw hvalue hsemicolon =>
        refine .ret hreturnKw ?_ hsemicolon
        rintro _ ⟨⟩
        exact h.formed (hvalue e rfl)
  · have he : relocate _ (e.toAst source) = _ := h.ast source
    simp [EqUpToPlaces, Stmt.toAst, relocate_default_span, he]

/-- In an expression statement the expression may be replaced. -/
theorem statement (h : e.Replaces table e') (semicolon : Token) :
    Replaces table (.stmt (.expr e semicolon)) (.stmt (.expr e' semicolon)) := by
  refine .stmt (fun h' => ?_) fun source => ?_
  · cases h' with
    | expr he hsemicolon => exact .expr (h.formed he) hsemicolon
  · have he : relocate _ (e.toAst source) = _ := h.ast source
    simp [EqUpToPlaces, Stmt.toAst, he]

end Replaces

variable {table : OperatorTable} {before after : List Token} {part part' whole : Part}

/-- A tree in which a part is replaced may stand for the tree, and the part that replaces it stands
where the other one stood. -/
theorem ChildBetween.replace (h : ChildBetween before after part whole)
    (hpart : part.Replaces table part') :
    ∃ whole', ChildBetween before after part' whole' ∧ whole.Replaces table whole' := by
  cases hpart with
  | expr hpart =>
      -- the child tells which field of the node is replaced
      cases h with
      | initValue name colon => exact ⟨_, .initValue name colon _, .initValue hpart name colon⟩
      | operand op opToken => exact ⟨_, .operand op opToken _, .unary hpart op opToken⟩
      | left op opToken left right => exact ⟨_, .left op opToken _ right, .left hpart _ _ _⟩
      | right op opToken left right => exact ⟨_, .right op opToken left _, .right hpart _ _ _⟩
      | inner lparen _ rparen => exact ⟨_, .inner lparen _ rparen, .group hpart _ _⟩
      | arg callee lparen items _ separator others rparen =>
          exact ⟨_, .arg callee lparen items _ separator others rparen, .arg hpart _ _ _ _ _ _⟩
      | defined letKw target eq _ semicolon =>
          exact ⟨_, .defined letKw target eq _ semicolon, .define hpart _ _ _ _⟩
      | assigned setKw target eq _ semicolon =>
          exact ⟨_, .assigned setKw target eq _ semicolon, .assign hpart _ _ _ _⟩
      | returned returnKw _ semicolon =>
          exact ⟨_, .returned returnKw _ semicolon, .ret hpart _ _⟩
      | statement _ semicolon => exact ⟨_, .statement _ semicolon, .statement hpart _⟩
  | init hformed hast =>
      cases h with
      | init type lbrace items _ separator others rbrace =>
          exact ⟨_, .init type lbrace items _ separator others rbrace,
            .struct (.init hformed hast) _ _ _ _ _ _⟩
  | stmt hformed hast =>
      cases h with
      | body funcKw lparen params rparen result lbrace stmts _ others rbrace =>
          exact ⟨_, .body funcKw lparen params rparen result lbrace stmts _ others rbrace,
            .body (.stmt hformed hast) _ _ _ _ _ _ _ _ _⟩

/-- A part may be replaced deep inside a tree, by induction on how deep it stands. -/
theorem Between.replace (h : Between before after part whole) (hpart : part.Replaces table part') :
    ∃ whole', Between before after part' whole' ∧ whole.Replaces table whole' := by
  induction h with
  | refl => exact ⟨part', .refl part', hpart⟩
  | tail _ hchild ih =>
      obtain ⟨inner', hinner, hreplaces⟩ := ih hpart
      obtain ⟨whole', hchild', hwhole⟩ := hchild.replace hreplaces
      exact ⟨whole', hinner.tail hchild', hwhole⟩

end Part

/-- An expression may be put in parentheses: no operator between operands is its outermost part
then, and its abstract syntax is what it was. -/
theorem Expr.replaces_group {table : OperatorTable} {lparen rparen : Token}
    (hlparen : table.leading lparen.kind = some .group) (hrparen : rparen.kind = .rparen)
    (e : Expr) : e.Replaces table (.group lparen e rparen) :=
  ⟨fun he => .group hlparen he hrparen, nofun, nofun, fun _ => rfl⟩

namespace Program

variable {table : OperatorTable} {before after : List Token} {part part' : Part} {p : Program}

/-- A part may be replaced in a whole program, which ends with the same token. -/
theorem Between.replace (h : Between before after part p) (hpart : part.Replaces table part') :
    ∃ p', Between before after part' p' ∧ (p.WellFormed table → p'.WellFormed table) ∧
      p'.eof = p.eof ∧ ∀ source, EqUpToPlaces (p.toAst source) (p'.toAst source) := by
  obtain ⟨h, stmts, others, eof⟩ := h
  obtain ⟨_, h', hwhole⟩ := h.replace hpart
  obtain - | - | ⟨hformed, hast⟩ := hwhole
  refine ⟨_, .mk h' stmts others eof, fun hp => ⟨?_, hp.eof⟩, rfl, fun source => ?_⟩
  · have hstmts := hp.stmts
    simp only [List.forall_mem_append, List.forall_mem_cons] at hstmts ⊢
    exact ⟨hstmts.1, hformed hstmts.2.1, hstmts.2.2⟩
  · have hs : relocate _ (Stmt.toAst source _) = _ := hast source
    refine congrArg Ast.Program.mk ?_
    simp [Program.toAst, Stmt.listToAst_eq, hs]

/-- **Redundant parentheses are harmless.** Every expression that stands in a parsed program stands
between some tokens before it and the others behind it. Wherever it stands, a parenthesis can be put
on either side of its tokens: the program is parsed then as well, and its abstract syntax differs in
nothing but the places. -/
theorem ofTokens_parenthesized {tokens : List Token} {p : Program}
    (h : ofTokens tokens .standard = .ok p) :
    (∀ e, (∃ s ∈ p.stmts, Part.In (.expr e) (.stmt s)) ↔
      ∃ before after, Between before after (.expr e) p) ∧
    ∀ e before after, Between before after (.expr e) p →
      ∃ rest, tokens = before ++ (e.yield ++ (after ++ rest)) ∧
        ∀ lparen rparen : Token, lparen.kind = .lparen → rparen.kind = .rparen →
          ∃ p', ofTokens (before ++ (lparen :: (e.yield ++ (rparen :: (after ++ rest)))))
              .standard = .ok p' ∧
            ∀ source, EqUpToPlaces (p.toAst source) (p'.toAst source) := by
  obtain ⟨hp, rest, rfl, hrest⟩ := wellFormed_of_ofTokens h
  refine ⟨fun e => in_iff_between, fun e before after he => ⟨rest, ?_, ?_⟩⟩
  · rw [he.yield_eq]
    simp only [List.append_assoc, Part.yield]
  · intro lparen rparen hlparen hrparen
    have hgroup : e.Replaces .standard (.group lparen e rparen) :=
      e.replaces_group (by rw [hlparen]; rfl) hrparen
    obtain ⟨p', he', hp', heof, hast⟩ := he.replace (.expr hgroup)
    refine ⟨p', ?_, hast⟩
    have hparse : ofTokens (p'.yield ++ rest) .standard = .ok p' :=
      ofTokens_yield_append (hp' hp) (by rwa [heof])
    rw [he'.yield_eq] at hparse
    simpa only [Part.yield, Expr.yield, List.append_assoc, List.cons_append, List.nil_append]
      using hparse

/-- The sum `- a + b;` as a program. -/
def negatedSum : Program :=
  ⟨[.expr (.binary (.unary .neg (.sample .minus "-") (.place (.var (.sample .ident "a")))) .add
    (.sample .plus "+") (.place (.var (.sample .ident "b")))) (.sample .semicolon ";")], none⟩

/-- In `- a + b;` the operand of the sign may be put in parentheses. -/
theorem ofTokens_parenthesized_operand :
    ofTokens [.sample .minus "-", .sample .ident "a", .sample .plus "+", .sample .ident "b",
        .sample .semicolon ";"] .standard = .ok negatedSum ∧
      ∃ p', ofTokens [.sample .minus "-", .sample .lparen "(", .sample .ident "a",
            .sample .rparen ")", .sample .plus "+", .sample .ident "b", .sample .semicolon ";"]
            .standard = .ok p' ∧
          ∀ source, EqUpToPlaces (negatedSum.toAst source) (p'.toAst source) := by
  have h : ofTokens [.sample .minus "-", .sample .ident "a", .sample .plus "+", .sample .ident "b",
    .sample .semicolon ";"] .standard = .ok negatedSum := rfl
  let a : Expr := .place (.var (.sample .ident "a"))
  let b : Expr := .place (.var (.sample .ident "b"))
  have hsign := (Part.Between.refl (.expr a)).tail (.operand .neg (.sample .minus "-") a)
  have hsum := hsign.tail (.left .add (.sample .plus "+") _ b)
  have hplace := Between.mk (hsum.tail (.statement _ (.sample .semicolon ";"))) [] [] none
  obtain ⟨rest, htokens, hparses⟩ := (ofTokens_parenthesized h).2 a _ _ hplace
  obtain rfl : rest = [] := by
    have hlength := congrArg List.length htokens
    simpa [a, b, Expr.yield, Place.yield, Stmt.listYield] using hlength
  exact ⟨h, hparses (.sample .lparen "(") (.sample .rparen ")") rfl rfl⟩

end Program

end StructScript.ParseTree
