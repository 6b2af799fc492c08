import StructScript.Reading.Program
import StructScript.Proofs.Layout.ParseTree

/-!
# Reading does not depend on positions

Each reader of syntax commutes with relocation: on relocated tokens it reads the relocated tree, or
fails at the relocated place. There is one lemma for each reader, in the order of the readers, under
the same assumption on the readers of its parts.

Main result: `ParseTree.Program.ofTokens_relocate`.
-/

namespace StructScript

open Bounded (Commutes)

variable (g : Relocation)

instance : Relocatable Cursor := ⟨fun g c => ⟨relocate g c.consumed, relocate g c.remaining⟩⟩

instance : Relocatable ParseError := ⟨fun g e => { e with position := relocate g e.position }⟩

/-- A cursor is relocated in the tokens before and behind it. -/
@[simp] theorem Cursor.relocate_mk (consumed remaining : List Token) :
    relocate g (⟨consumed, remaining⟩ : Cursor) = ⟨relocate g consumed, relocate g remaining⟩ := rfl

/-- An error of the reader is relocated in its position; the constructs that it names hold none. -/
@[simp] theorem ParseError.relocate_mk (cause : ParseError.Cause) (position : Option Position)
    (context : List Construct) : relocate g (⟨cause, position, context⟩ : ParseError) =
      ⟨cause, relocate g position, context⟩ := rfl

/-- Whether tokens are left does not depend on positions. -/
theorem Cursor.hasMore_relocate (c : Cursor) : (relocate g c).hasMore = c.hasMore := by
  obtain ⟨consumed, remaining⟩ := c
  cases remaining <;> rfl

/-- The error for the end of the tokens is placed at the last token, wherever that is. -/
theorem Cursor.outOfTokens_relocate (c : Cursor) :
    (relocate g c).outOfTokens = relocate g c.outOfTokens := by
  have hposition : (relocate g c).last?.map (·.position) =
      relocate g (c.last?.map (·.position)) := by
    obtain ⟨consumed, remaining⟩ := c
    simp only [relocate_mk, last?, relocate_list, List.getLast?_map, List.head?_map]
    cases remaining.getLast? <;> cases consumed.head? <;> rfl
  rw [outOfTokens, hposition]
  rfl

namespace Parse

open ParseTree

variable {α β : Type} [Relocatable α] [Relocatable β] {g : Relocation}

/-! ### The basic readers -/

/-- Looking at the next token commutes with relocation. -/
theorem commutes_peek : Commutes g peek peek := by
  rintro ⟨consumed, remaining⟩
  cases remaining with
  | nil => simp [peek, ← Cursor.outOfTokens_relocate]
  | cons token rest => rfl

/-- Taking the next token commutes with relocation. -/
theorem commutes_advance : Commutes g advance advance := by
  rintro ⟨consumed, remaining⟩
  cases remaining with
  | nil => simp [advance, ← Cursor.outOfTokens_relocate]
  | cons token rest => rfl

/-- Only the kind of the next token is compared. -/
theorem commutes_checkAny (kinds : List TokenKind) : Commutes g (checkAny kinds) (checkAny kinds) :=
  .bind commutes_peek fun _ => .pure rfl

/-- A reader that looks at the next token and goes on in one of two ways. -/
theorem commutes_ifAny (kinds : List TokenKind) {p p' q q' : Parse α} (hp : Commutes g p p')
    (hq : Commutes g q q') :
    Commutes g (do if ← checkAny kinds then p else q) (do if ← checkAny kinds then p' else q') :=
  .bind (commutes_checkAny kinds) fun
    | true => hp
    | false => hq

/-- A choice by the kind of the next token is the same choice on relocated tokens. -/
theorem commutes_if (kind : TokenKind) {p p' q q' : Parse α} (hp : Commutes g p p')
    (hq : Commutes g q q') :
    Commutes g (do if ← check kind then p else q) (do if ← check kind then p' else q') :=
  commutes_ifAny [kind] hp hq

/-- A token of the wrong kind is reported at its relocated place. -/
theorem commutes_expectAny (kinds : List TokenKind) :
    Commutes g (expectAny kinds) (expectAny kinds) := by
  refine .bind commutes_advance fun token => ?_
  simp only [Token.kind_relocate]
  split
  · exact .pure rfl
  · exact .fail rfl

/-- The same for one kind of token. -/
theorem commutes_expect (kind : TokenKind) : Commutes g (expect kind) (expect kind) :=
  commutes_expectAny [kind]

/-- Naming the construct that is being read holds no position. -/
theorem commutes_within {p p' : Parse α} (construct : Construct) (h : Commutes g p p') :
    Commutes g (within construct p) (within construct p') :=
  .mapError h fun _ => rfl

/-! ### Separated lists -/

/-- A list without a closing token commutes if its items do. -/
theorem commutes_chain (separator : TokenKind) {item item' : Parse α}
    (hitem : Commutes g item item') (n : Nat) :
    Commutes g (chain separator item n) (chain separator item' n) := by
  induction n with
  | zero => exact .exhausted
  | succ n ih =>
      refine .bind hitem fun value => commutes_if _ ?_ (.pure rfl)
      exact .bind (commutes_expect _) fun token => .bind ih fun rest => .pure rfl

/-- The items of a list up to its closing token commute if each does. -/
theorem commutes_closedItems (separator close : TokenKind) {item item' : Parse α}
    (hitem : Commutes g item item') (n : Nat) :
    Commutes g (closedItems separator close item n) (closedItems separator close item' n) := by
  induction n with
  | zero => exact .exhausted
  | succ n ih =>
      refine .bind hitem fun value => commutes_if _ (.pure rfl) ?_
      exact .bind (commutes_expect _) fun token => .bind ih fun rest => .pure rfl

/-- So does the whole list, which may be empty. -/
theorem commutes_closedList (separator close : TokenKind) {item item' : Parse α}
    (hitem : Commutes g item item') (n : Nat) :
    Commutes g (closedList separator close item n) (closedList separator close item' n) :=
  commutes_if _ (.pure rfl) (commutes_closedItems _ _ hitem n)

/-- So does a list that may end with a separator. -/
theorem commutes_openList (separator close : TokenKind) {item item' : Parse α}
    (hitem : Commutes g item item') (n : Nat) :
    Commutes g (openList separator close item n) (openList separator close item' n) := by
  induction n with
  | zero => exact .exhausted
  | succ n ih =>
      refine commutes_if _ (.pure rfl) (.bind hitem fun value => commutes_if _ (.pure rfl) ?_)
      exact .bind (commutes_expect _) fun token => .bind ih fun rest => .pure rfl

/-! ### Types, places and struct definitions -/

/-- The arguments behind the name of a type. -/
theorem commutes_typeArgs {type type' : Parse TypeRef} (htype : Commutes g type type') (n : Nat)
    (name : Token) : Commutes g (typeArgs type n name) (typeArgs type' n (relocate g name)) := by
  refine commutes_if _ (commutes_within _ ?_) (.pure rfl)
  refine .bind (commutes_expect _) fun lbracket => ?_
  refine .bind (commutes_chain _ htype n) fun args => ?_
  refine .bind (commutes_expect _) fun rbracket => .pure ?_
  simp

/-- Types, by induction on how deep they may be nested. -/
theorem commutes_typeRef (n : Nat) : Commutes g (typeRef n) (typeRef n) := by
  induction n with
  | zero => exact .exhausted
  | succ n ih =>
      exact commutes_within _ (.bind (commutes_expectAny _) fun name => commutes_typeArgs ih n name)

/-- The field accesses behind the beginning of a place. -/
theorem commutes_fields (n : Nat) (base : Place) :
    Commutes g (fields n base) (fields n (relocate g base)) := by
  induction n generalizing base with
  | zero => exact .exhausted
  | succ n ih =>
      refine commutes_if _ ?_ (.pure rfl)
      refine .bind (commutes_expect _) fun arrow => ?_
      exact .bind (commutes_expect _) fun name => ih (.field base arrow name)

/-- A place whose name has been taken already. -/
theorem commutes_placeFrom (n : Nat) (name : Token) :
    Commutes g (placeFrom n name) (placeFrom n (relocate g name)) :=
  commutes_if _ (commutes_within _ (commutes_fields n (.var name))) (.pure rfl)

/-- Places. -/
theorem commutes_place (n : Nat) : Commutes g (place n) (place n) :=
  commutes_within _ (.bind (commutes_expect _) fun name => commutes_placeFrom n name)

/-- Lists of names, which have one at least. -/
theorem commutes_nameList (n : Nat) : Commutes g (nameList n) (nameList n) := by
  refine commutes_within _ (.bind commutes_peek fun first => ?_)
  simp only [Token.kind_relocate]
  split
  · exact commutes_chain _ (commutes_expect _) n
  · exact .fail rfl

/-- The parameters of a struct definition. -/
theorem commutes_typeParams (n : Nat) : Commutes g (typeParams n) (typeParams n) := by
  refine commutes_within _ (.bind (commutes_expect _) fun lbracket => ?_)
  refine .bind (commutes_nameList n) fun names => ?_
  exact .bind (commutes_expect _) fun rbracket => .pure rfl

/-- A field group without its semicolon. -/
theorem commutes_fieldGroup (n : Nat) : Commutes g (fieldGroup n) (fieldGroup n) :=
  .bind (commutes_nameList n) fun _ => .bind (commutes_typeRef n) fun _ => .pure rfl

/-- All field groups of a struct definition. -/
theorem commutes_fieldGroups (n : Nat) : Commutes g (fieldGroups n) (fieldGroups n) := by
  refine commutes_within _ ?_
  refine .bind (commutes_openList _ _ (commutes_fieldGroup n) n) fun groups => ?_
  refine .pure (map_relocate g ?_ groups)
  exact fun _ => rfl

/-- Struct definitions, with parameters or without. -/
theorem commutes_structDef (n : Nat) : Commutes g (structDef n) (structDef n) := by
  refine commutes_within _ (.bind (commutes_expect _) fun structKw => ?_)
  have hrest (params : Option TypeParams) : Commutes g
      (do
        let lbrace ← expect .lbrace
        let groups ← fieldGroups n
        let rbrace ← expect .rbrace
        return (⟨structKw, params, lbrace, groups, rbrace⟩ : StructDef))
      (do
        let lbrace ← expect .lbrace
        let groups ← fieldGroups n
        let rbrace ← expect .rbrace
        return ⟨relocate g structKw, relocate g params, lbrace, groups, rbrace⟩) := by
    refine .bind (commutes_expect _) fun lbrace => ?_
    refine .bind (commutes_fieldGroups n) fun groups => ?_
    exact .bind (commutes_expect _) fun rbrace => .pure rfl
  have hparams : Commutes g (some <$> typeParams n) (some <$> typeParams n) :=
    .map (commutes_typeParams n) fun _ => rfl
  exact commutes_if _ (.bind hparams hrest) (.bind (.pure rfl) hrest)

/-! ### Expressions -/

variable {expr expr' : Precedence → Parse Expr} {stmt stmt' : Parse Stmt}

/-- The initialiser of a field. -/
theorem commutes_fieldInit (hexpr : ∀ p, Commutes g (expr p) (expr' p)) :
    Commutes g (fieldInit expr) (fieldInit expr') := by
  refine .bind (commutes_expect _) fun name => .bind (commutes_expect _) fun colon => ?_
  exact .bind (hexpr .bottom) fun value => .pure rfl

/-- A struct literal whose name has been taken already. -/
theorem commutes_structLiteral (n : Nat) (hexpr : ∀ p, Commutes g (expr p) (expr' p))
    (name : Token) :
    Commutes g (structLiteral n expr name) (structLiteral n expr' (relocate g name)) := by
  refine commutes_within _ ?_
  refine .bind (commutes_within _ (commutes_typeArgs (commutes_typeRef n) n name)) fun type => ?_
  refine .bind (commutes_expect _) fun lbrace => ?_
  refine .bind (commutes_within _ (commutes_openList _ _ (commutes_fieldInit hexpr) n))
    fun inits => ?_
  refine .bind (commutes_expect _) fun rbrace => .pure ?_
  simp

/-- What begins with a name: a struct literal or a place. -/
theorem commutes_named (n : Nat) (hexpr : ∀ p, Commutes g (expr p) (expr' p)) (name : Token) :
    Commutes g (named n expr name) (named n expr' (relocate g name)) := by
  unfold named
  simp only [Token.kind_relocate]
  split
  · refine commutes_ifAny _ (commutes_structLiteral n hexpr name) ?_
    exact .map (commutes_placeFrom n name) fun _ => rfl
  · exact .fail rfl

/-- An expression in parentheses whose first parenthesis has been taken. -/
theorem commutes_group (hexpr : ∀ p, Commutes g (expr p) (expr' p)) (lparen : Token) :
    Commutes g (group expr lparen) (group expr' (relocate g lparen)) := by
  refine commutes_within _ (.bind (hexpr .bottom) fun inner => ?_)
  exact .bind (commutes_expect _) fun rparen => .pure rfl

/-- A prefix expression whose operator has been taken. -/
theorem commutes_operand (hexpr : ∀ p, Commutes g (expr p) (expr' p)) (p : Precedence)
    (op : UnaryOp) (opToken : Token) :
    Commutes g (operand expr p op opToken) (operand expr' p op (relocate g opToken)) :=
  commutes_within _ (.bind (hexpr p) fun _ => .pure rfl)

/-- The parameter of a function. -/
theorem commutes_param (n : Nat) : Commutes g (param n) (param n) :=
  .bind (commutes_expect _) fun _ => .bind (commutes_typeRef n) fun _ => .pure rfl

/-- The statements of a function body. -/
theorem commutes_block (hstmt : Commutes g stmt stmt') (n : Nat) :
    Commutes g (block stmt n) (block stmt' n) := by
  induction n with
  | zero => exact .exhausted
  | succ n ih =>
      refine commutes_if _ (.pure rfl) (commutes_if _ ?_ ?_)
      · exact .bind commutes_peek fun token => .fail rfl
      · exact .bind hstmt fun first => .bind ih fun rest => .pure rfl

/-- A function literal whose keyword has been taken. -/
theorem commutes_func (n : Nat) (hstmt : Commutes g stmt stmt') (funcKw : Token) :
    Commutes g (func n stmt funcKw) (func n stmt' (relocate g funcKw)) := by
  refine commutes_within _ (.bind (commutes_expect _) fun lparen => ?_)
  refine .bind (commutes_within _ (commutes_closedList _ _ (commutes_param n) n)) fun params => ?_
  refine .bind (commutes_expect _) fun rparen => ?_
  have hrest (result : Option TypeRef) : Commutes g
      (do
        let lbrace ← expect .lbrace
        let body ← within .funcBody (block stmt n)
        let rbrace ← expect .rbrace
        return Expr.func funcKw lparen params rparen result lbrace body rbrace)
      (do
        let lbrace ← expect .lbrace
        let body ← within .funcBody (block stmt' n)
        let rbrace ← expect .rbrace
        return Expr.func (relocate g funcKw) (relocate g lparen) (relocate g params)
          (relocate g rparen) (relocate g result) lbrace body rbrace) := by
    refine .bind (commutes_expect _) fun lbrace => ?_
    refine .bind (commutes_within _ (commutes_block hstmt n)) fun body => ?_
    refine .bind (commutes_expect _) fun rbrace => .pure ?_
    simp
  have hresult : Commutes g (some <$> typeRef n) (some <$> typeRef n) :=
    .map (commutes_typeRef n) fun _ => rfl
  exact commutes_if _ (.bind (.pure rfl) hrest) (.bind hresult hrest)

/-- What a token begins, under each rule for such tokens. -/
theorem commutes_leading (n : Nat) (hexpr : ∀ p, Commutes g (expr p) (expr' p))
    (hstmt : Commutes g stmt stmt') (rule : LeadingRule) (token : Token) :
    Commutes g (leading n expr stmt rule token)
      (leading n expr' stmt' rule (relocate g token)) := by
  cases rule with
  | literal =>
      simp only [leading, Token.kind_relocate]
      split
      · exact .pure rfl
      · exact .fail rfl
  | ident => exact commutes_named n hexpr token
  | group => exact commutes_group hexpr token
  | operator p =>
      simp only [leading, Token.kind_relocate]
      split
      · exact commutes_operand hexpr p _ token
      · exact .fail rfl
  | func => exact commutes_func n hstmt token

/-- Whether an expression is a place does not depend on positions. -/
theorem Expr.place?_relocate (e : Expr) :
    (relocate g e).place? = relocate g e.place? := by
  cases e <;> rfl

/-- A call whose callee and first parenthesis have been taken. -/
theorem commutes_call (n : Nat) (hexpr : ∀ p, Commutes g (expr p) (expr' p)) (callee : Expr)
    (lparen : Token) :
    Commutes g (call n expr callee lparen)
      (call n expr' (relocate g callee) (relocate g lparen)) := by
  refine commutes_within _ ?_
  rw [Expr.place?_relocate]
  cases callee.place? with
  | none => exact .fail rfl
  | some p =>
      refine .bind (commutes_closedList _ _ (hexpr .bottom) n) fun args => ?_
      refine .bind (commutes_expect _) fun rparen => .pure ?_
      simp

/-- What a token goes on with, under each rule for such tokens. -/
theorem commutes_trailing (n : Nat) (hexpr : ∀ p, Commutes g (expr p) (expr' p))
    (rule : TrailingRule) (left : Expr) (token : Token) :
    Commutes g (trailing n expr rule left token)
      (trailing n expr' rule (relocate g left) (relocate g token)) := by
  cases rule with
  | binary p groupsRight =>
      simp only [trailing, Token.kind_relocate]
      split
      · exact .fail rfl
      · exact commutes_within _ (.bind (hexpr _) fun right => .pure rfl)
  | call => exact commutes_call n hexpr left token

/-- The loop that extends an expression to the right. -/
theorem commutes_extend (table : OperatorTable) (hexpr : ∀ p, Commutes g (expr p) (expr' p))
    (min : Precedence) (n : Nat) (left : Expr) :
    Commutes g (extend table expr min n left) (extend table expr' min n (relocate g left)) := by
  induction n generalizing left with
  | zero => exact .exhausted
  | succ n ih =>
      refine .bind commutes_peek fun next => ?_
      simp only [Token.kind_relocate]
      split
      · exact .pure rfl
      · split
        · exact .pure rfl
        · refine .bind commutes_advance fun token => ?_
          exact .bind (commutes_trailing n hexpr _ left token) fun longer => ih longer

/-! ### Statements and programs -/

/-- Type definitions. -/
theorem commutes_typeDefinition (n : Nat) : Commutes g (typeDefinition n) (typeDefinition n) := by
  refine commutes_within _ (.bind (commutes_expect _) fun typeKw => ?_)
  refine .bind (commutes_typeRef n) fun name => .bind (commutes_expect _) fun eq => ?_
  refine .bind (commutes_structDef n) fun definition => ?_
  exact .bind (commutes_expect _) fun semicolon => .pure rfl

/-- Definitions of variables. -/
theorem commutes_definition (n : Nat) (hexpr : ∀ p, Commutes g (expr p) (expr' p)) :
    Commutes g (definition n expr) (definition n expr') := by
  refine commutes_within _ (.bind (commutes_expect _) fun letKw => ?_)
  refine .bind (commutes_place n) fun target => .bind (commutes_expect _) fun eq => ?_
  refine .bind (hexpr .bottom) fun value => ?_
  exact .bind (commutes_expect _) fun semicolon => .pure rfl

/-- Assignments. -/
theorem commutes_assignment (n : Nat) (hexpr : ∀ p, Commutes g (expr p) (expr' p)) :
    Commutes g (assignment n expr) (assignment n expr') := by
  refine commutes_within _ (.bind (commutes_expect _) fun setKw => ?_)
  refine .bind (commutes_place n) fun target => .bind (commutes_expect _) fun eq => ?_
  refine .bind (hexpr .bottom) fun value => ?_
  exact .bind (commutes_expect _) fun semicolon => .pure rfl

/-- Returns, with a value or without. -/
theorem commutes_returnStatement (hexpr : ∀ p, Commutes g (expr p) (expr' p)) :
    Commutes g (returnStatement expr) (returnStatement expr') := by
  refine commutes_within _ (.bind (commutes_expect _) fun returnKw => ?_)
  have hrest (value : Option Expr) : Commutes g
      (do
        let semicolon ← expect .semicolon
        return Stmt.ret returnKw value semicolon)
      (do
        let semicolon ← expect .semicolon
        return Stmt.ret (relocate g returnKw) (relocate g value) semicolon) :=
    .bind (commutes_expect _) fun semicolon => .pure (by simp)
  have hvalue : Commutes g (some <$> expr .bottom) (some <$> expr' .bottom) :=
    .map (hexpr .bottom) fun _ => rfl
  exact commutes_if _ (.bind (.pure rfl) hrest) (.bind hvalue hrest)

/-- Expressions as statements. -/
theorem commutes_exprStatement (hexpr : ∀ p, Commutes g (expr p) (expr' p)) :
    Commutes g (exprStatement expr) (exprStatement expr') := by
  refine commutes_within _ (.bind (hexpr .bottom) fun inner => ?_)
  exact .bind (commutes_expect _) fun semicolon => .pure rfl

/-- Statements, told apart by their first token. -/
theorem commutes_statement (n : Nat) (hexpr : ∀ p, Commutes g (expr p) (expr' p)) :
    Commutes g (statement n expr) (statement n expr') := by
  refine commutes_within _ (.bind commutes_peek fun first => ?_)
  simp only [Token.kind_relocate]
  split
  · exact commutes_typeDefinition n
  · exact commutes_definition n hexpr
  · exact commutes_assignment n hexpr
  · exact commutes_returnStatement hexpr
  · exact commutes_exprStatement hexpr

/-- The readers of expressions and of statements, under one bound. -/
theorem commutes_expr_and_stmt (g : Relocation) (table : OperatorTable) (n : Nat) :
    (∀ min, Commutes g (Parse.expr table n min) (Parse.expr table n min)) ∧
      Commutes g (Parse.stmt table n) (Parse.stmt table n) := by
  induction n with
  | zero => exact ⟨fun _ => .exhausted, .exhausted⟩
  | succ n ih =>
      obtain ⟨hexpr, hstmt⟩ := ih
      refine ⟨fun min => ?_, commutes_statement n hexpr⟩
      refine .bind commutes_advance fun token => ?_
      simp only [Token.kind_relocate]
      split
      · exact .fail rfl
      · rename_i rule _
        refine .bind (commutes_leading n hexpr hstmt rule token) fun left => ?_
        exact commutes_extend table hexpr min n left

/-- Programs, up to the closing token or the end of the tokens. -/
theorem commutes_program (hstmt : Commutes g stmt stmt') (n : Nat) :
    Commutes g (program stmt n) (program stmt' n) := by
  induction n with
  | zero => exact .exhausted
  | succ n ih =>
      refine .bind .state fun cursor => ?_
      simp only [Cursor.hasMore_relocate]
      split
      · refine .bind commutes_peek fun next => ?_
        simp only [Token.kind_relocate]
        split
        · exact .bind commutes_advance fun token => .pure rfl
        · exact .fail rfl
        · exact .bind hstmt fun first => .bind ih fun rest => .pure rfl
      · exact .pure rfl

/-- Reading under the bound for the cursor commutes with relocation: the bound is the same. -/
theorem atCursor_relocate {p : Nat → Parse α} (hp : ∀ n, Commutes g (p n) (p n)) (c : Cursor) :
    atCursor p (relocate g c) = relocate g (atCursor p c) := by
  have hbound : nestingBound (relocate g c) = nestingBound c :=
    congrArg (2 * · + 4) (length_relocate g c.remaining)
  unfold atCursor
  rw [hbound, hp _ c, Cursor.outOfTokens_relocate]
  cases p (nestingBound c) c <;> rfl

end Parse

/-- **Reading commutes with relocation.** -/
theorem ParseTree.Program.ofTokens_relocate (g : Relocation) (tokens : List Token)
    (table : OperatorTable) :
    ofTokens (relocate g tokens) table = relocate g (ofTokens tokens table) := by
  have hprogram (n : Nat) : Commutes g (Parse.program (Parse.stmt table n) n)
      (Parse.program (Parse.stmt table n) n) :=
    Parse.commutes_program (Parse.commutes_expr_and_stmt g table n).2 n
  exact congrArg Prod.fst (Parse.atCursor_relocate hprogram (Cursor.ofTokens tokens))

end StructScript
