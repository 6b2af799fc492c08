import Mathlib.Data.List.Chain
import StructScript.Proofs.Failure.FirstError
import StructScript.Proofs.Reading.Nesting

/-!
# The constructs that an error names

A parse error names the constructs that were being read. Which of them can stand directly inside
which is a graph (`Construct.inside`), and what an error names, from the outside in, is a path of
this graph.

A judgement about readers carries it: `Parse.NamesFrom starts p` says of the errors of `p` that they
name a path that starts in `starts`, or nothing. It has one rule for every way in which readers are
put together. All rules but one leave the path alone; the one for `Parse.within` goes along an edge
of the graph.

At top level every error comes out of a statement, but for the one at a closing brace where a
statement should begin (`cases_of_program`).

Main result: `readProgram_error_chain`.
-/

namespace StructScript

namespace Construct

/-- The constructs that begin inside an expression. -/
def expressions : List Construct :=
  [unaryOperator, binaryOperator, group, structLiteral, fieldAccess, call, func]

/-- The constructs that begin directly inside a construct. -/
def inside : Construct → List Construct
  | stmt => [typeDef, define, assign, returnStmt, exprStmt]
  | typeDef => [type, structDef]
  | define | assign => place :: expressions
  | returnStmt | exprStmt => expressions
  | place => [fieldAccess]
  | type => [typeArgs]
  | typeArgs => [type]
  | structDef => [typeParams, structFields]
  | typeParams => [nameList]
  | structFields => [nameList, type]
  | nameList | fieldAccess => []
  | unaryOperator | binaryOperator | group | call | structLiteralFields => expressions
  | structLiteral => [type, structLiteralFields]
  | func => [funcParams, type, funcBody]
  | funcParams => [type]
  | funcBody => [stmt]

/-- Each construct of the chain begins directly inside the one before it. -/
def IsPath (chain : List Construct) : Prop :=
  chain.IsChain fun outer inner => inner ∈ outer.inside

end Construct

namespace Parse

open ParseTree

variable {α β : Type}

/-- Where the reader fails, the constructs that the error names are a path, and the outermost of
them, if there is one, is one of `starts`. -/
def NamesFrom (starts : List Construct) (p : Parse α) : Prop :=
  ∀ ⦃c e d⦄, p c = some (.error e, d) →
    Construct.IsPath e.chain ∧ ∀ outermost ∈ e.chain.head?, outermost ∈ starts

/-! ### Putting readers together -/

namespace NamesFrom

variable {starts : List Construct} {p : Parse α} {f : α → Parse β}

/-- A reader whose errors name nothing. -/
theorem of_chain_eq_nil (h : ∀ ⦃c e d⦄, p c = some (.error e, d) → e.chain = []) :
    NamesFrom starts p := by
  intro c e d he
  rw [h he]
  exact ⟨.nil, nofun⟩

/-- More constructs may be named first. -/
theorem mono (hp : NamesFrom starts p) {starts' : List Construct} (hsub : starts ⊆ starts') :
    NamesFrom starts' p := by
  intro c e d he
  obtain ⟨hpath, hstarts⟩ := hp he
  exact ⟨hpath, fun outermost hmem => hsub (hstarts outermost hmem)⟩

/-- Giving a value is no error. -/
theorem pure (a : α) : NamesFrom starts (Pure.pure a : Parse α) := nofun

/-- Nor is it to have no bound left. -/
theorem exhausted : NamesFrom starts (Bounded.exhausted : Parse α) := nofun

/-- An error that names nothing names a path. -/
theorem fail {e : ParseError} (he : e.chain = []) :
    NamesFrom starts (Bounded.fail e : Parse α) := by
  refine of_chain_eq_nil fun c e' d h => ?_
  cases h
  exact he

/-- An error of a sequence is one of its parts. -/
theorem bind (hp : NamesFrom starts p) (hf : ∀ a, NamesFrom starts (f a)) :
    NamesFrom starts (p >>= f) := by
  intro c e d h
  rcases Bounded.bind_eq_error_iff.mp h with he | ⟨a, c', -, he⟩
  · exact hp he
  · exact hf a he

/-- A function of the value leaves the errors. -/
theorem map (hp : NamesFrom starts p) (g : α → β) : NamesFrom starts (g <$> p) := by
  rw [map_eq_pure_bind]
  exact hp.bind fun a => pure (g a)

/-- What is read within a construct begins inside it, and the error names the construct first. -/
theorem within {construct : Construct} (hp : NamesFrom construct.inside p)
    (hstart : construct ∈ starts) : NamesFrom starts (Parse.within construct p) := by
  intro c e d h
  obtain ⟨e', he', rfl⟩ := Bounded.mapError_eq_error_iff.mp h
  obtain ⟨hpath, hinside⟩ := hp he'
  rw [ParseError.chain_within]
  refine ⟨List.isChain_cons.mpr ⟨hinside, hpath⟩, fun outermost hmem => ?_⟩
  obtain rfl : construct = outermost := Option.some.inj hmem
  exact hstart

/-- A choice names what its sides name. -/
theorem ite {condition : Prop} [Decidable condition] {q : Parse α} (hp : NamesFrom starts p)
    (hq : NamesFrom starts q) : NamesFrom starts (if condition then p else q) := by
  split
  · exact hp
  · exact hq

/-- Where no token is left, nothing is named. -/
theorem peek : NamesFrom starts Parse.peek := by
  refine of_chain_eq_nil fun c e d h => ?_
  unfold Parse.peek at h
  split at h
  · cases h
    rfl
  · cases h

/-- The same for taking a token. -/
theorem advance : NamesFrom starts Parse.advance := by
  refine of_chain_eq_nil fun c e d h => ?_
  obtain ⟨-, -, rfl⟩ := advance_eq_error_iff.mp h
  rfl

/-- The same for comparing the next token. -/
theorem checkAny (kinds : List TokenKind) : NamesFrom starts (Parse.checkAny kinds) :=
  peek.bind fun _ => pure _

/-- The same for one kind. -/
theorem check (kind : TokenKind) : NamesFrom starts (Parse.check kind) := checkAny [kind]

/-- A token of the wrong kind is reported without a construct. -/
theorem expectAny (kinds : List TokenKind) : NamesFrom starts (Parse.expectAny kinds) :=
  advance.bind fun token => ite (pure token) (fail rfl)

/-- The same for one kind. -/
theorem expect (kind : TokenKind) : NamesFrom starts (Parse.expect kind) := expectAny [kind]

end NamesFrom

/-! ### Lists -/

section Lists

variable {starts : List Construct} {item : Parse α} (separator close : TokenKind)

/-- A list without a closing token names what its items name. -/
theorem namesFrom_chain (hitem : NamesFrom starts item) :
    ∀ n, NamesFrom starts (chain separator item n)
  | 0 => .exhausted
  | n + 1 => hitem.bind fun _ => (NamesFrom.check _).bind fun _ => .ite
      ((NamesFrom.expect _).bind fun _ => (namesFrom_chain hitem n).bind fun _ => .pure _) (.pure _)

/-- So do the items up to a closing token. -/
theorem namesFrom_closedItems (hitem : NamesFrom starts item) :
    ∀ n, NamesFrom starts (closedItems separator close item n)
  | 0 => .exhausted
  | n + 1 => hitem.bind fun _ => (NamesFrom.check _).bind fun _ => .ite (.pure _)
      ((NamesFrom.expect _).bind fun _ => (namesFrom_closedItems hitem n).bind fun _ => .pure _)

/-- So does the whole list. -/
theorem namesFrom_closedList (hitem : NamesFrom starts item) (n : Nat) :
    NamesFrom starts (closedList separator close item n) :=
  (NamesFrom.check _).bind fun _ =>
    .ite (.pure _) (namesFrom_closedItems separator close hitem n)

/-- So does a list that may end with a separator. -/
theorem namesFrom_openList (hitem : NamesFrom starts item) :
    ∀ n, NamesFrom starts (openList separator close item n)
  | 0 => .exhausted
  | n + 1 => (NamesFrom.check _).bind fun _ => .ite (.pure _) <| hitem.bind fun _ =>
      (NamesFrom.check _).bind fun _ => .ite (.pure _)
        ((NamesFrom.expect _).bind fun _ => (namesFrom_openList hitem n).bind fun _ => .pure _)

end Lists

/-! ### Types, places and struct definitions -/

section Declarations

variable {starts : List Construct}

/-- Type arguments may stand inside a type, and types inside them. -/
theorem namesFrom_typeArgs {type : Parse TypeRef} (htype : NamesFrom [.type] type) (n : Nat)
    (name : Token) (hstart : .typeArgs ∈ starts) : NamesFrom starts (typeArgs type n name) := by
  refine (NamesFrom.check _).bind fun _ => .ite (.within ?_ hstart) (.pure _)
  refine (NamesFrom.expect _).bind fun _ => (namesFrom_chain _ htype n).bind fun _ => ?_
  exact (NamesFrom.expect _).bind fun _ => .pure _

/-- Types stand inside the arguments of types, so this goes by induction on the bound. -/
theorem namesFrom_typeRef : ∀ {starts : List Construct} (n : Nat), .type ∈ starts →
    NamesFrom starts (typeRef n)
  | _, 0, _ => .exhausted
  | _, n + 1, hstart => .within ((NamesFrom.expectAny _).bind fun name =>
      namesFrom_typeArgs (namesFrom_typeRef n (by decide)) n name (by decide)) hstart

/-- Field accesses name nothing by themselves. -/
theorem namesFrom_fields : ∀ n base, NamesFrom starts (fields n base)
  | 0, _ => .exhausted
  | n + 1, _ => (NamesFrom.check _).bind fun _ => .ite
      ((NamesFrom.expect _).bind fun _ => (NamesFrom.expect _).bind fun _ => namesFrom_fields n _)
      (.pure _)

/-- Behind its name, a place names a field access. -/
theorem namesFrom_placeFrom (n : Nat) (name : Token) (hstart : .fieldAccess ∈ starts) :
    NamesFrom starts (placeFrom n name) :=
  (NamesFrom.check _).bind fun _ => .ite (.within (namesFrom_fields n _) hstart) (.pure _)

/-- A place, with a field access inside. -/
theorem namesFrom_place (n : Nat) (hstart : .place ∈ starts) : NamesFrom starts (place n) :=
  .within ((NamesFrom.expect _).bind fun name => namesFrom_placeFrom n name (by decide)) hstart

/-- A list of names has nothing inside. -/
theorem namesFrom_nameList (n : Nat) (hstart : .nameList ∈ starts) :
    NamesFrom starts (nameList n) :=
  .within (NamesFrom.peek.bind fun _ => .ite (namesFrom_chain _ (.expect _) n) (.fail rfl)) hstart

/-- Type parameters, with their list of names inside. -/
theorem namesFrom_typeParams (n : Nat) (hstart : .typeParams ∈ starts) :
    NamesFrom starts (typeParams n) := by
  refine .within ((NamesFrom.expect _).bind fun _ => ?_) hstart
  refine (namesFrom_nameList n (by decide)).bind fun _ => ?_
  exact (NamesFrom.expect _).bind fun _ => .pure _

/-- The fields of a struct, with lists of names and types inside. -/
theorem namesFrom_fieldGroups (n : Nat) (hstart : .structFields ∈ starts) :
    NamesFrom starts (fieldGroups n) := by
  have hgroup : NamesFrom (Construct.inside .structFields) (fieldGroup n) :=
    (namesFrom_nameList n (by decide)).bind fun _ =>
      (namesFrom_typeRef n (by decide)).bind fun _ => .pure _
  exact .within ((namesFrom_openList _ _ hgroup n).bind fun _ => .pure _) hstart

/-- A struct definition, with its parameters and its fields inside. -/
theorem namesFrom_structDef (n : Nat) (hstart : .structDef ∈ starts) :
    NamesFrom starts (structDef n) := by
  refine .within ((NamesFrom.expect _).bind fun structKw => ?_) hstart
  have rest (params : Option TypeParams) : NamesFrom (Construct.inside .structDef) (do
      let lbrace ← expect .lbrace
      let groups ← fieldGroups n
      let rbrace ← expect .rbrace
      return (⟨structKw, params, lbrace, groups, rbrace⟩ : StructDef)) :=
    (NamesFrom.expect _).bind fun _ => (namesFrom_fieldGroups n (by decide)).bind fun _ =>
      (NamesFrom.expect _).bind fun _ => .pure _
  refine (NamesFrom.check _).bind fun _ => .ite ?_ ((NamesFrom.pure _).bind rest)
  exact ((namesFrom_typeParams n (by decide)).map _).bind rest

end Declarations

/-! ### Expressions and statements -/

section Expressions

variable {table : OperatorTable} {expr : Precedence → Parse Expr} {stmt : Parse Stmt}

/-- A struct literal, with its type and its fields inside. -/
theorem namesFrom_structLiteral (hexpr : ∀ min, NamesFrom Construct.expressions (expr min))
    (n : Nat) (name : Token) :
    NamesFrom Construct.expressions (structLiteral n expr name) := by
  have htype : NamesFrom (Construct.inside .structLiteral)
      (within .type (typeArgs (typeRef n) n name)) :=
    .within (namesFrom_typeArgs (namesFrom_typeRef n (by decide)) n name (by decide)) (by decide)
  have hinit : NamesFrom (Construct.inside .structLiteralFields) (fieldInit expr) :=
    (NamesFrom.expect _).bind fun _ => (NamesFrom.expect _).bind fun _ =>
      (hexpr _).bind fun _ => .pure _
  refine .within (htype.bind fun _ => (NamesFrom.expect _).bind fun _ => ?_) (by decide)
  refine (NamesFrom.within (namesFrom_openList _ _ hinit n) (by decide)).bind fun _ => ?_
  exact (NamesFrom.expect _).bind fun _ => .pure _

/-- What begins with a name: a struct literal or a field access. -/
theorem namesFrom_named (hexpr : ∀ min, NamesFrom Construct.expressions (expr min)) (n : Nat)
    (name : Token) : NamesFrom Construct.expressions (named n expr name) := by
  refine .ite ((NamesFrom.checkAny _).bind fun _ => .ite ?_ ?_) (.fail rfl)
  · exact namesFrom_structLiteral hexpr n name
  · exact (namesFrom_placeFrom n name (by decide)).map _

/-- A group, with an expression inside. -/
theorem namesFrom_group (hexpr : ∀ min, NamesFrom Construct.expressions (expr min))
    (lparen : Token) : NamesFrom Construct.expressions (group expr lparen) :=
  .within ((hexpr _).bind fun _ => (NamesFrom.expect _).bind fun _ => .pure _) (by decide)

/-- A prefix operator, with its operand inside. -/
theorem namesFrom_operand (hexpr : ∀ min, NamesFrom Construct.expressions (expr min))
    (p : Precedence) (op : UnaryOp) (opToken : Token) :
    NamesFrom Construct.expressions (operand expr p op opToken) :=
  .within ((hexpr p).bind fun _ => .pure _) (by decide)

/-- A function body names statements. -/
theorem namesFrom_block (hstmt : NamesFrom [.stmt] stmt) : ∀ n, NamesFrom [.stmt] (block stmt n)
  | 0 => .exhausted
  | n + 1 => by
      refine (NamesFrom.check _).bind fun _ => .ite (.pure _) ?_
      refine (NamesFrom.check _).bind fun _ => .ite (NamesFrom.peek.bind fun _ => .fail rfl) ?_
      exact hstmt.bind fun _ => (namesFrom_block hstmt n).bind fun _ => .pure _

/-- A function literal, with its parameters, its result type and its body inside. -/
theorem namesFrom_func (hstmt : NamesFrom [.stmt] stmt) (n : Nat) (funcKw : Token) :
    NamesFrom Construct.expressions (func n stmt funcKw) := by
  have hparam : NamesFrom (Construct.inside .funcParams) (param n) :=
    (NamesFrom.expect _).bind fun _ => (namesFrom_typeRef n (by decide)).bind fun _ => .pure _
  refine .within ((NamesFrom.expect _).bind fun lparen => ?_) (by decide)
  refine (NamesFrom.within (namesFrom_closedList _ _ hparam n) (by decide)).bind fun params => ?_
  refine (NamesFrom.expect _).bind fun rparen => (NamesFrom.check _).bind fun _ => ?_
  have rest (result : Option TypeRef) : NamesFrom (Construct.inside .func) (do
      let lbrace ← expect .lbrace
      let body ← within .funcBody (block stmt n)
      let rbrace ← expect .rbrace
      return Expr.func funcKw lparen params rparen result lbrace body rbrace) := by
    have hbody : NamesFrom (Construct.inside .funcBody) (block stmt n) := namesFrom_block hstmt n
    refine (NamesFrom.expect _).bind fun _ => (hbody.within (by decide)).bind fun _ => ?_
    exact (NamesFrom.expect _).bind fun _ => .pure _
  refine .ite ((NamesFrom.pure _).bind rest) ?_
  exact ((namesFrom_typeRef n (by decide)).map _).bind rest

/-- What a token begins, under each rule for such tokens. -/
theorem namesFrom_leading (hexpr : ∀ min, NamesFrom Construct.expressions (expr min))
    (hstmt : NamesFrom [.stmt] stmt) (n : Nat) (rule : LeadingRule) (token : Token) :
    NamesFrom Construct.expressions (leading n expr stmt rule token) := by
  cases rule with
  | literal =>
      unfold leading
      dsimp only
      split
      · exact .pure _
      · exact .fail rfl
  | ident => exact namesFrom_named hexpr n token
  | group => exact namesFrom_group hexpr token
  | operator p =>
      unfold leading
      dsimp only
      split
      · exact namesFrom_operand hexpr p _ token
      · exact .fail rfl
  | func => exact namesFrom_func hstmt n token

/-- A call, with its arguments inside. -/
theorem namesFrom_call (hexpr : ∀ min, NamesFrom Construct.expressions (expr min)) (n : Nat)
    (callee : Expr) (lparen : Token) :
    NamesFrom Construct.expressions (call n expr callee lparen) := by
  refine .within ?_ (by decide)
  split
  · exact .fail rfl
  · refine (namesFrom_closedList _ _ (hexpr _) n).bind fun _ => ?_
    exact (NamesFrom.expect _).bind fun _ => .pure _

/-- What a token goes on with, under each rule for such tokens. -/
theorem namesFrom_trailing (hexpr : ∀ min, NamesFrom Construct.expressions (expr min)) (n : Nat)
    (rule : TrailingRule) (left : Expr) (token : Token) :
    NamesFrom Construct.expressions (trailing n expr rule left token) := by
  cases rule with
  | binary p groupsRight =>
      unfold trailing
      dsimp only
      split
      · exact .fail rfl
      · exact .within ((hexpr _).bind fun _ => .pure _) (by decide)
  | call => exact namesFrom_call hexpr n left token

/-- The loop that extends an expression. -/
theorem namesFrom_extend (hexpr : ∀ min, NamesFrom Construct.expressions (expr min))
    (min : Precedence) : ∀ n left, NamesFrom Construct.expressions (extend table expr min n left)
  | 0, _ => .exhausted
  | n + 1, left => by
      refine NamesFrom.peek.bind fun next => ?_
      split
      · exact .pure _
      · refine .ite (.pure _) (NamesFrom.advance.bind fun token => ?_)
        exact (namesFrom_trailing hexpr n _ left token).bind fun longer =>
          namesFrom_extend hexpr min n longer

/-- A type definition begins inside a statement, with a type and a struct definition inside. -/
theorem namesFrom_typeDefinition (n : Nat) :
    NamesFrom (Construct.inside .stmt) (typeDefinition n) := by
  refine .within ((NamesFrom.expect _).bind fun _ => ?_) (by decide)
  refine (namesFrom_typeRef n (by decide)).bind fun _ => (NamesFrom.expect _).bind fun _ => ?_
  refine (namesFrom_structDef n (by decide)).bind fun _ => ?_
  exact (NamesFrom.expect _).bind fun _ => .pure _

/-- What follows the keyword of a definition or of an assignment. -/
theorem namesFrom_placed (hexpr : ∀ min, NamesFrom Construct.expressions (expr min)) (n : Nat)
    (make : Place → Token → Expr → Token → Stmt) :
    NamesFrom (.place :: Construct.expressions) (do
      let target ← place n
      let eq ← expect .eq
      let value ← expr .bottom
      let semicolon ← expect .semicolon
      return make target eq value semicolon) := by
  refine (namesFrom_place n (by decide)).bind fun _ => (NamesFrom.expect _).bind fun _ => ?_
  refine ((hexpr _).mono (List.subset_cons_self _ _)).bind fun _ => ?_
  exact (NamesFrom.expect _).bind fun _ => .pure _

/-- A return begins inside a statement, with an expression inside. -/
theorem namesFrom_returnStatement (hexpr : ∀ min, NamesFrom Construct.expressions (expr min)) :
    NamesFrom (Construct.inside .stmt) (returnStatement expr) := by
  have rest (returnKw : Token) (value : Option Expr) : NamesFrom (Construct.inside .returnStmt) (do
      let semicolon ← expect .semicolon
      return Stmt.ret returnKw value semicolon) :=
    (NamesFrom.expect _).bind fun _ => .pure _
  refine .within ((NamesFrom.expect _).bind fun returnKw => ?_) (by decide)
  refine (NamesFrom.check _).bind fun _ => .ite ((NamesFrom.pure _).bind (rest returnKw)) ?_
  exact ((hexpr _).map _).bind (rest returnKw)

/-- An expression statement begins inside a statement. -/
theorem namesFrom_exprStatement (hexpr : ∀ min, NamesFrom Construct.expressions (expr min)) :
    NamesFrom (Construct.inside .stmt) (exprStatement expr) :=
  .within ((hexpr _).bind fun _ => (NamesFrom.expect _).bind fun _ => .pure _) (by decide)

/-- A statement of any sort. -/
theorem namesFrom_statement (hexpr : ∀ min, NamesFrom Construct.expressions (expr min)) (n : Nat) :
    NamesFrom [.stmt] (statement n expr) := by
  refine .within (NamesFrom.peek.bind fun first => ?_) (by decide)
  split
  · exact namesFrom_typeDefinition n
  · refine .within ((NamesFrom.expect _).bind fun letKw => ?_) (by decide)
    exact namesFrom_placed hexpr n (.define letKw)
  · refine .within ((NamesFrom.expect _).bind fun setKw => ?_) (by decide)
    exact namesFrom_placed hexpr n (.assign setKw)
  · exact namesFrom_returnStatement hexpr
  · exact namesFrom_exprStatement hexpr

end Expressions

/-! ### The whole reader -/

/-- The readers of expressions and of statements, by induction on their common bound. -/
theorem namesFrom_expr_and_stmt (table : OperatorTable) :
    ∀ n, (∀ min, NamesFrom Construct.expressions (expr table n min)) ∧
      NamesFrom [.stmt] (stmt table n)
  | 0 => ⟨fun _ => .exhausted, .exhausted⟩
  | n + 1 => by
      obtain ⟨hexpr, hstmt⟩ := namesFrom_expr_and_stmt table n
      refine ⟨fun min => NamesFrom.advance.bind fun token => ?_, namesFrom_statement hexpr n⟩
      split
      · exact .fail rfl
      · exact (namesFrom_leading hexpr hstmt n _ token).bind fun left =>
          namesFrom_extend hexpr min n left

/-- What goes wrong in a statement is named so. -/
theorem chain_ne_nil_of_stmt {table : OperatorTable} {n : Nat} {c d : Cursor} {e : ParseError}
    (h : stmt table n c = some (.error e, d)) : e.chain ≠ [] := by
  cases n with
  | zero => cases h
  | succ n =>
      obtain ⟨e', -, rfl⟩ := Bounded.mapError_eq_error_iff.mp h
      rw [ParseError.chain_within]
      exact List.cons_ne_nil _ _

/-! ### Statements one after another -/

/-- Reading statements one after another leads from one cursor to another. -/
inductive ReadsStatements (table : OperatorTable) : Cursor → Cursor → Prop where
  | nil (c : Cursor) : ReadsStatements table c c
  | cons {c c' d : Cursor} {s : Stmt} (hstmt : readStmt table c = (.ok s, c'))
      (hrest : ReadsStatements table c' d) : ReadsStatements table c d

/-- Behind some statements, read from the cursor `c` on, a closing brace stands where another one
would begin. -/
structure MeetsBrace (table : OperatorTable) (c d : Cursor) (brace : Token) : Prop where
  statements : ReadsStatements table c d
  next : d.remaining.head? = some brace
  kind : brace.kind = .rbrace

section Statements

variable {table : OperatorTable} {c c' d : Cursor} {brace : Token} {n : Nat}

/-- The bound for a cursor is above twice the number of its tokens. -/
theorem length_lt_nestingBound (c : Cursor) : 2 * c.remaining.length < nestingBound c := by
  unfold nestingBound
  omega

/-- Every bound that is large enough is as good as the one for the cursor. -/
theorem stmt_eq_readStmt (hn : 2 * c.remaining.length < n) :
    stmt table n c = some (readStmt table c) :=
  (settles_expr_and_stmt.2 hn (length_lt_nestingBound c)).atCursor_eq

/-- A statement that is read takes a token. -/
theorem length_lt_of_stmt {s : Stmt} (hn : 2 * c.remaining.length < n)
    (h : stmt table n c = some (.ok s, c')) : c'.remaining.length < c.remaining.length := by
  have hsettles : Settles (stmt table n) (stmt table n) true c.remaining.length :=
    settles_expr_and_stmt.2 hn hn
  obtain ⟨r, d, hr, -, htaken⟩ := hsettles c (Nat.le_refl _)
  obtain ⟨rfl, rfl⟩ := Prod.mk.inj (Option.some.inj (h.symm.trans hr))
  exact htaken s rfl

/-- A statement before those that lead to the brace. -/
theorem MeetsBrace.cons {s : Stmt} (hstmt : readStmt table c = (.ok s, c'))
    (h : MeetsBrace table c' d brace) : MeetsBrace table c d brace :=
  ⟨.cons hstmt h.statements, h.next, h.kind⟩

/-- Unless the brace is the next token, a statement stands before it. -/
theorem MeetsBrace.exists_stmt (h : MeetsBrace table c d brace)
    (hnext : ∀ t ∈ c.remaining.head?, t.kind ≠ .rbrace) :
    ∃ s c', readStmt table c = (.ok s, c') ∧ MeetsBrace table c' d brace := by
  obtain ⟨hstatements, hbrace, hkind⟩ := h
  cases hstatements with
  | nil => exact absurd hkind (hnext brace hbrace)
  | cons hstmt hrest => exact ⟨_, _, hstmt, hrest, hbrace, hkind⟩

/-- Where no tokens are left, the program ends. -/
theorem program_of_nil (stmt : Parse Stmt) (n : Nat) (hc : c.remaining = []) :
    program stmt (n + 1) c = some (.ok ⟨[], none⟩, c) := by
  obtain ⟨before, remaining⟩ := c
  obtain rfl : remaining = [] := hc
  rfl

/-- A program fails at a closing brace where a statement should begin, or in a statement. -/
theorem cases_of_program {bound : Nat} {e : ParseError} (hbound : 2 * c.remaining.length < bound)
    (hn : c.remaining.length < n)
    (h : program (stmt table bound) n c = some (.error e, d)) :
    (∃ brace, MeetsBrace table c d brace ∧ e = .unexpectedDescribed "a statement" brace) ∨
      (∃ c', stmt table bound c' = some (.error e, d)) ∧
        ∀ d' brace, ¬ MeetsBrace table c d' brace := by
  induction n generalizing c with
  | zero => omega
  | succ n ih =>
      rcases hc : c.remaining with _ | ⟨next, rest⟩
      · rw [program_of_nil _ n hc] at h
        cases h
      by_cases heof : next.kind = .eof
      · rw [program_of_eof _ n hc heof] at h
        cases h
      by_cases hrbrace : next.kind = .rbrace
      · rw [program_of_rbrace _ n hc hrbrace] at h
        cases h
        exact .inl ⟨next, ⟨.nil _, by rw [hc]; rfl, hrbrace⟩, rfl⟩
      have hnext : ∀ t ∈ c.remaining.head?, t.kind ≠ .rbrace := by
        intro t ht
        rw [hc] at ht
        obtain rfl : next = t := Option.some.inj ht
        exact hrbrace
      have hread : stmt table bound c = some (readStmt table c) := stmt_eq_readStmt hbound
      rw [program_of_stmt _ n hc heof hrbrace] at h
      rcases Bounded.bind_eq_error_iff.mp h with hfails | ⟨first, c₁, hfirst, hbehind⟩
      · -- in this statement
        refine .inr ⟨⟨c, hfails⟩, fun d' brace hmeets => ?_⟩
        obtain ⟨s, c', hstmt, -⟩ := hmeets.exists_stmt hnext
        rw [hread, hstmt] at hfails
        cases hfails
      · -- behind this statement
        have hlength := length_lt_of_stmt hbound hfirst
        have hfirst' : readStmt table c = (.ok first, c₁) :=
          Option.some.inj (hread.symm.trans hfirst)
        rcases Bounded.bind_eq_error_iff.mp hbehind with hfails | ⟨_, _, _, hpure⟩
        · rcases ih (by omega) (by omega) hfails with ⟨brace, hmeets, he⟩ | ⟨hstmt, hnot⟩
          · exact .inl ⟨brace, hmeets.cons hfirst', he⟩
          · refine .inr ⟨hstmt, fun d' brace hmeets => ?_⟩
            obtain ⟨s, c', hs, hmeets'⟩ := hmeets.exists_stmt hnext
            obtain ⟨-, rfl⟩ := Prod.mk.inj (hfirst'.symm.trans hs)
            exact hnot d' brace hmeets'
        · cases hpure

end Statements

/-- **What an error names is a path.** With any operator table and at any place of any buffer: if a
program cannot be read, then either reading has come, behind some statements, to a closing brace where
another statement should begin, and the error names no construct; or there is no such place, and the
constructs that the error names, from the outside in, are a path of the graph of constructs that
starts at a statement. -/
theorem readProgram_error_chain {table : OperatorTable} {c d : Cursor} {e : ParseError}
    (h : readProgram table c = (.error e, d)) :
    (e.chain = [] ∧
      ∃ brace, MeetsBrace table c d brace ∧ e = .unexpectedDescribed "a statement" brace) ∨
    ((∃ inner, e.chain = .stmt :: inner) ∧ Construct.IsPath e.chain ∧
      ∀ d' brace, ¬ MeetsBrace table c d' brace) := by
  have hbound := length_lt_nestingBound c
  have hstmt : Settles (stmt table (nestingBound c)) (stmt table (nestingBound c)) true
      c.remaining.length :=
    settles_expr_and_stmt.2 hbound hbound
  have hends : program (stmt table (nestingBound c)) (nestingBound c) c = some (.error e, d) := by
    rw [← h]
    exact (settles_program hstmt (by omega) (by omega)).atCursor_eq
      (p := fun n => program (stmt table n) n)
  rcases cases_of_program hbound (by omega) hends with ⟨brace, hmeets, rfl⟩ | ⟨⟨c', hfails⟩, hnot⟩
  · exact .inl ⟨rfl, brace, hmeets, rfl⟩
  · obtain ⟨hpath, hstarts⟩ := (namesFrom_expr_and_stmt table _).2 hfails
    refine .inr ⟨?_, hpath, hnot⟩
    obtain ⟨outermost, inner, hchain⟩ := List.exists_cons_of_ne_nil (chain_ne_nil_of_stmt hfails)
    obtain rfl : outermost = .stmt := List.mem_singleton.mp (hstarts outermost (by rw [hchain]; rfl))
    exact ⟨inner, hchain⟩

/-- The operand of a sum is missing, in the body of a function that is the argument of a call. -/
theorem readProgram_error_chain_sum :
    let c := Cursor.ofTokens [.sample .ident "x", .sample .semicolon ";", .sample .ident "f",
      .sample .lparen "(", .sample .funcKw "func", .sample .lparen "(", .sample .rparen ")",
      .sample .lbrace "\x7b", .sample .letKw "let", .sample .ident "y", .sample .eq "=",
      .sample .int "1", .sample .plus "+", .sample .semicolon ";"]
    ∃ e d, readProgram .standard c = (.error e, d) ∧
      e.chain = [.stmt, .exprStmt, .call, .func, .funcBody, .stmt, .define, .binaryOperator] ∧
      ((e.chain = [] ∧ ∃ brace, MeetsBrace .standard c d brace ∧
          e = .unexpectedDescribed "a statement" brace) ∨
        ((∃ inner, e.chain = .stmt :: inner) ∧ Construct.IsPath e.chain ∧
          ∀ d' brace, ¬ MeetsBrace .standard c d' brace)) := by
  intro c
  obtain ⟨e, d, h, hchain⟩ : ∃ e d, readProgram .standard c = (.error e, d) ∧
      e.chain = [.stmt, .exprStmt, .call, .func, .funcBody, .stmt, .define, .binaryOperator] :=
    ⟨_, _, rfl, by decide +kernel⟩
  exact ⟨e, d, h, hchain, readProgram_error_chain h⟩

end Parse

end StructScript
