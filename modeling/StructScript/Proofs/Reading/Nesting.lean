import StructScript.Reading.Program

/-!
# Reading ends

The readers are built under a bound: on the nesting of types, expressions and statements, and on the
length of lists. It is never used up. Every round of a list takes a token, and so does every type or
expression before it comes to one inside it; only a statement may begin with an expression where it
begins itself. So a reader needs at most two readers inside one another for every token that is
left, and itself.

`Parse.Settles` is the judgement of this, with one rule for every way in which readers are put
together. It is about one reader under two bounds, so it also says that the bound does not matter.

Main result: `readers_end`.
-/

namespace StructScript.Parse

open ParseTree

variable {α β : Type}

/-- Wherever at most `room` tokens are left, the two readers end, and in the same way; if they give
a value they have gone forward, by one token at least if `taking` is set. -/
def Settles (p q : Parse α) (taking : Bool) (room : Nat) : Prop :=
  ∀ c : Cursor, c.remaining.length ≤ room → ∃ r d, p c = some (r, d) ∧ q c = some (r, d) ∧
    ∀ a, r = .ok a → d.remaining.length + taking.toNat ≤ c.remaining.length

/-! ### Putting readers together -/

namespace Settles

variable {p q : Parse α} {f g : α → Parse β} {taking : Bool} {room : Nat}

/-- Readers that settle where some tokens are left do so where fewer are. -/
theorem mono (h : Settles p q taking room) {room' : Nat} (hroom : room' ≤ room) :
    Settles p q taking room' :=
  fun c hc => h c (Nat.le_trans hc hroom)

/-- That a token has been taken may be forgotten. -/
theorem of_taking (h : Settles p q true room) : Settles p q taking room := by
  intro c hc
  obtain ⟨r, d, hp, hq, hvalue⟩ := h c hc
  refine ⟨r, d, hp, hq, fun a ha => ?_⟩
  have htaken := hvalue a ha
  have hle := taking.toNat_le
  simp only [Bool.toNat_true] at htaken
  omega

/-- Giving a value settles, without a token. -/
theorem pure (a : α) : Settles (Pure.pure a) (Pure.pure a) false room := by
  intro c _
  exact ⟨.ok a, c, rfl, rfl, fun _ _ => Nat.le_refl _⟩

/-- Failing settles; it owes no token, since it gives no value. -/
theorem fail (e : ParseError) :
    Settles (Bounded.fail e : Parse α) (Bounded.fail e) taking room := by
  intro c _
  exact ⟨.error e, c, rfl, rfl, nofun⟩

/-- A sequence whose second part may find all tokens left. -/
theorem bind (hp : Settles p q false room) (hf : ∀ a, Settles (f a) (g a) taking room) :
    Settles (p >>= f) (q >>= g) taking room := by
  intro c hc
  obtain ⟨r, d, hpc, hqc, hvalue⟩ := hp c hc
  rw [Bounded.bind_apply, Bounded.bind_apply, hpc, hqc]
  cases r with
  | error e => exact ⟨.error e, d, rfl, rfl, nofun⟩
  | ok a =>
      have htaken : d.remaining.length ≤ c.remaining.length := hvalue a rfl
      obtain ⟨r', d', hf', hg', hvalue'⟩ := hf a d (Nat.le_trans htaken hc)
      exact ⟨r', d', hf', hg', fun b hb => Nat.le_trans (hvalue' b hb) htaken⟩

/-- A sequence whose second part finds a token less. -/
theorem bind_taking (hp : Settles p q true room)
    (hf : 0 < room → ∀ a, Settles (f a) (g a) false (room - 1)) :
    Settles (p >>= f) (q >>= g) taking room := by
  apply of_taking
  intro c hc
  obtain ⟨r, d, hpc, hqc, hvalue⟩ := hp c hc
  rw [Bounded.bind_apply, Bounded.bind_apply, hpc, hqc]
  cases r with
  | error e => exact ⟨.error e, d, rfl, rfl, nofun⟩
  | ok a =>
      have htaken : d.remaining.length + 1 ≤ c.remaining.length := hvalue a rfl
      obtain ⟨r', d', hf', hg', hvalue'⟩ := hf (by omega) a d (by omega)
      refine ⟨r', d', hf', hg', fun b hb => ?_⟩
      have hrest : d'.remaining.length ≤ d.remaining.length := hvalue' b hb
      simp only [Bool.toNat_true]
      omega

/-- A function of the value keeps settling. -/
theorem map (hp : Settles p q taking room) (h : α → β) :
    Settles (h <$> p) (h <$> q) taking room := by
  rw [map_eq_pure_bind, map_eq_pure_bind]
  cases taking with
  | false => exact hp.bind fun a => pure (h a)
  | true => exact hp.bind_taking fun _ a => pure (h a)

/-- Naming a construct keeps settling. -/
theorem within (hp : Settles p q taking room) (construct : Construct) :
    Settles (Parse.within construct p) (Parse.within construct q) taking room := by
  intro c hc
  obtain ⟨r, d, hpc, hqc, hvalue⟩ := hp c hc
  unfold Parse.within Bounded.mapError
  rw [hpc, hqc]
  cases r with
  | error e => exact ⟨.error (e.within construct), d, rfl, rfl, nofun⟩
  | ok a => exact ⟨.ok a, d, rfl, rfl, hvalue⟩

/-- A choice settles if both sides do. -/
theorem ite {condition : Prop} [Decidable condition] {p' q' : Parse α}
    (hp : Settles p q taking room) (hp' : Settles p' q' taking room) :
    Settles (if condition then p else p') (if condition then q else q') taking room := by
  by_cases h : condition
  · simpa [h] using hp
  · simpa [h] using hp'

/-- What depends on the cursor settles if it does for every cursor. -/
theorem state {f g : Cursor → Parse β} (hf : ∀ c, Settles (f c) (g c) taking room) :
    Settles (Bounded.state >>= f) (Bounded.state >>= g) taking room := by
  intro c hc
  exact hf c c hc

/-- The next token can be told only where one is left. -/
theorem peek {f g : Token → Parse β}
    (hf : 0 < room → ∀ token, Settles (f token) (g token) taking room) :
    Settles (Parse.peek >>= f) (Parse.peek >>= g) taking room := by
  intro c hc
  rcases c with ⟨consumed, _ | ⟨token, rest⟩⟩
  · exact ⟨_, _, rfl, rfl, nofun⟩
  · have hroom : 0 < room := Nat.lt_of_lt_of_le (Nat.zero_lt_succ _) hc
    exact hf hroom token _ hc

/-- Once a token has been taken there is room for one less. -/
theorem advance {f g : Token → Parse β}
    (hf : 0 < room → ∀ token, Settles (f token) (g token) false (room - 1)) :
    Settles (Parse.advance >>= f) (Parse.advance >>= g) taking room := by
  have htoken : Settles Parse.advance Parse.advance true room := by
    intro c _
    rcases c with ⟨consumed, _ | ⟨token, rest⟩⟩
    · exact ⟨_, _, rfl, rfl, nofun⟩
    · exact ⟨.ok token, _, rfl, rfl, fun _ _ => Nat.le_refl _⟩
  exact htoken.bind_taking hf

/-- Comparing the next token leaves the room as it is. -/
theorem checkAny {kinds : List TokenKind} {f g : Bool → Parse β}
    (hf : ∀ b, Settles (f b) (g b) taking room) :
    Settles (Parse.checkAny kinds >>= f) (Parse.checkAny kinds >>= g) taking room := by
  unfold Parse.checkAny
  rw [Bounded.bind_assoc, Bounded.bind_assoc]
  exact peek fun _ token => hf (kinds.contains token.kind)

/-- A choice by the kind of the next token settles if both sides do. -/
theorem check {kind : TokenKind} {p q p' q' : Parse β} (hp : Settles p q taking room)
    (hp' : Settles p' q' taking room) :
    Settles (Parse.check kind >>= fun b => if b = true then p else p')
      (Parse.check kind >>= fun b => if b = true then q else q') taking room :=
  checkAny fun _ => ite hp hp'

/-- Once a token of some kinds has been taken there is room for one less. -/
theorem expectAny {kinds : List TokenKind} {f g : Token → Parse β}
    (hf : 0 < room → ∀ token, Settles (f token) (g token) false (room - 1)) :
    Settles (Parse.expectAny kinds >>= f) (Parse.expectAny kinds >>= g) taking room := by
  unfold Parse.expectAny
  rw [Bounded.bind_assoc, Bounded.bind_assoc]
  exact advance fun hroom token => bind (ite (pure token) (fail _)) (hf hroom)

/-- The same for one kind. -/
theorem expect {kind : TokenKind} {f g : Token → Parse β}
    (hf : 0 < room → ∀ token, Settles (f token) (g token) false (room - 1)) :
    Settles (Parse.expect kind >>= f) (Parse.expect kind >>= g) taking room :=
  expectAny hf

end Settles

/-! ### Lists -/

section Lists

variable {item item' : Parse α} (separator close : TokenKind) {room n n' : Nat}

/-- A bound above the number of tokens left is enough for a list of items that take a token each. -/
theorem settles_chain (hitem : Settles item item' true room) (hn : room < n) (hn' : room < n') :
    Settles (chain separator item n) (chain separator item' n') true room := by
  induction n generalizing room n' with
  | zero => omega
  | succ n ih =>
      obtain ⟨n', rfl⟩ := Nat.exists_eq_add_one_of_ne_zero (Nat.ne_zero_of_lt hn')
      unfold chain
      refine hitem.bind_taking fun _ value => .check (.expect fun _ token => ?_) (.pure _)
      have hrest : Settles (chain separator item n) (chain separator item' n') true
          (room - 1 - 1) :=
        ih (hitem.mono (by omega)) (by omega) (by omega)
      exact hrest.bind_taking fun _ _ => .pure _

/-- The items of a list up to its closing token: every round takes a token, so a bound above the
room is not used up. -/
theorem settles_closedItems (hitem : Settles item item' true room) (hn : room < n)
    (hn' : room < n') : Settles (closedItems separator close item n)
      (closedItems separator close item' n') true room := by
  induction n generalizing room n' with
  | zero => omega
  | succ n ih =>
      obtain ⟨n', rfl⟩ := Nat.exists_eq_add_one_of_ne_zero (Nat.ne_zero_of_lt hn')
      unfold closedItems
      refine hitem.bind_taking fun _ value => .check (.pure _) (.expect fun _ token => ?_)
      have hrest : Settles (closedItems separator close item n)
          (closedItems separator close item' n') true (room - 1 - 1) :=
        ih (hitem.mono (by omega)) (by omega) (by omega)
      exact hrest.bind_taking fun _ _ => .pure _

/-- Lists up to a closing token, which may be empty. -/
theorem settles_closedList (hitem : Settles item item' true room) (hn : room < n)
    (hn' : room < n') : Settles (closedList separator close item n)
      (closedList separator close item' n') false room := by
  have hitems := settles_closedItems separator close hitem hn hn'
  exact .check (.pure _) hitems.of_taking

/-- Lists that may end with a separator. -/
theorem settles_openList (hitem : Settles item item' true room) (hn : room < n) (hn' : room < n') :
    Settles (openList separator close item n) (openList separator close item' n') false room := by
  induction n generalizing room n' with
  | zero => omega
  | succ n ih =>
      obtain ⟨n', rfl⟩ := Nat.exists_eq_add_one_of_ne_zero (Nat.ne_zero_of_lt hn')
      unfold openList
      refine .check (.pure _) (hitem.bind_taking fun _ value => ?_)
      refine .check (.pure _) (.expect fun _ token => ?_)
      have hrest : Settles (openList separator close item n) (openList separator close item' n')
          false (room - 1 - 1) :=
        ih (hitem.mono (by omega)) (by omega) (by omega)
      exact hrest.bind fun _ => .pure _

end Lists

/-! ### Types, places and struct definitions -/

section Declarations

variable {room n n' : Nat}

/-- The arguments behind the name of a type, which may be none. -/
theorem settles_typeArgs {type type' : Parse TypeRef} (htype : Settles type type' true room)
    (hn : room < n) (hn' : room < n') (name : Token) :
    Settles (typeArgs type n name) (typeArgs type' n' name) false room := by
  refine .check (.within (.expect fun _ lbracket => ?_) _) (.pure _)
  have hargs : Settles (chain .comma type n) (chain .comma type' n') true (room - 1) :=
    settles_chain _ (htype.mono (by omega)) (by omega) (by omega)
  exact hargs.bind_taking fun _ args => .expect fun _ rbracket => .pure _

/-- Types take a token before they come to one inside. -/
theorem settles_typeRef (hn : room < n) (hn' : room < n') :
    Settles (typeRef n) (typeRef n') true room := by
  induction n generalizing room n' with
  | zero => omega
  | succ n ih =>
      obtain ⟨n', rfl⟩ := Nat.exists_eq_add_one_of_ne_zero (Nat.ne_zero_of_lt hn')
      refine .within (.expectAny fun hroom name => ?_) _
      exact settles_typeArgs (ih (by omega) (by omega)) (by omega) (by omega) name

/-- The field accesses behind the beginning of a place, two tokens for each. -/
theorem settles_fields (hn : room < n) (hn' : room < n') (base : Place) :
    Settles (fields n base) (fields n' base) false room := by
  induction n generalizing room n' base with
  | zero => omega
  | succ n ih =>
      obtain ⟨n', rfl⟩ := Nat.exists_eq_add_one_of_ne_zero (Nat.ne_zero_of_lt hn')
      refine .check (.expect fun _ arrow => .expect fun _ name => ?_) (.pure _)
      exact ih (by omega) (by omega) _

/-- Places whose name has been taken. -/
theorem settles_placeFrom (hn : room < n) (hn' : room < n') (name : Token) :
    Settles (placeFrom n name) (placeFrom n' name) false room :=
  .check (.within (settles_fields hn hn' _) _) (.pure _)

/-- Places take a token at least. -/
theorem settles_place (hn : room < n) (hn' : room < n') : Settles (place n) (place n') true room :=
  .within (.expect fun _ name => settles_placeFrom (by omega) (by omega) name) _

/-- Lists of names take a token at least. -/
theorem settles_nameList (hn : room < n) (hn' : room < n') :
    Settles (nameList n) (nameList n') true room := by
  have hname : Settles (expect .ident) (expect .ident) true room := by
    have hall : Settles (expect .ident >>= Pure.pure) (expect .ident >>= Pure.pure) true room :=
      .expect fun _ token => .pure token
    rwa [Bounded.bind_pure_id] at hall
  exact .within (.peek fun _ first => .ite (settles_chain _ hname hn hn') (.fail _)) _

/-- The parameters of a struct definition take a token at least. -/
theorem settles_typeParams (hn : room < n) (hn' : room < n') :
    Settles (typeParams n) (typeParams n') true room := by
  refine .within (.expect fun _ lbracket => ?_) _
  have hnames : Settles (nameList n) (nameList n') true (room - 1) :=
    settles_nameList (by omega) (by omega)
  exact hnames.bind_taking fun _ names => .expect fun _ rbracket => .pure _

/-- Field groups take a token at least, so that their list ends. -/
theorem settles_fieldGroup (hn : room < n) (hn' : room < n') :
    Settles (fieldGroup n) (fieldGroup n') true room := by
  refine (settles_nameList hn hn').bind_taking fun _ names => ?_
  have htype : Settles (typeRef n) (typeRef n') true (room - 1) :=
    settles_typeRef (by omega) (by omega)
  exact htype.bind_taking fun _ type => .pure _

/-- All field groups of a struct definition, which may be none. -/
theorem settles_fieldGroups (hn : room < n) (hn' : room < n') :
    Settles (fieldGroups n) (fieldGroups n') false room := by
  have hgroups := settles_openList .semicolon .rbrace (settles_fieldGroup hn hn') hn hn'
  exact .within (hgroups.bind fun groups => .pure _) _

/-- Struct definitions take a token at least. -/
theorem settles_structDef (hn : room < n) (hn' : room < n') :
    Settles (structDef n) (structDef n') true room := by
  have rest (structKw : Token) (params : Option TypeParams) {room : Nat} (hn : room < n)
      (hn' : room < n') : Settles
        (do
          let lbrace ← expect .lbrace
          let groups ← fieldGroups n
          let rbrace ← expect .rbrace
          return (⟨structKw, params, lbrace, groups, rbrace⟩ : StructDef))
        (do
          let lbrace ← expect .lbrace
          let groups ← fieldGroups n'
          let rbrace ← expect .rbrace
          return ⟨structKw, params, lbrace, groups, rbrace⟩) false room := by
    refine .expect fun _ lbrace => ?_
    have hgroups : Settles (fieldGroups n) (fieldGroups n') false (room - 1) :=
      settles_fieldGroups (by omega) (by omega)
    exact hgroups.bind fun groups => .expect fun _ rbrace => .pure _
  refine .within (.expect fun _ structKw => .check ?_ ?_) _
  · have hparams : Settles (typeParams n) (typeParams n') true (room - 1) :=
      settles_typeParams (by omega) (by omega)
    exact (hparams.map some).bind_taking fun _ params => rest structKw params (by omega) (by omega)
  · have hnone : Settles (Pure.pure none : Parse (Option TypeParams)) (Pure.pure none) false
        (room - 1) := .pure none
    exact hnone.bind fun params => rest structKw params (by omega) (by omega)

end Declarations

/-! ### Expressions and statements -/

section Expressions

variable {table : OperatorTable} {expr expr' : Precedence → Parse Expr} {stmt stmt' : Parse Stmt}
  {room n n' : Nat}

/-- Wherever at most `room` tokens are left, the two readers of expressions settle at every
strength, and have taken a token if they give an expression. -/
def SettlesExprs (expr expr' : Precedence → Parse Expr) (room : Nat) : Prop :=
  ∀ min, Settles (expr min) (expr' min) true room

/-- Readers of expressions that settle where some tokens are left do so where fewer are. -/
theorem SettlesExprs.mono (h : SettlesExprs expr expr' room) {room' : Nat} (hroom : room' ≤ room) :
    SettlesExprs expr expr' room' :=
  fun min => (h min).mono hroom

/-- Initialisers take a token at least. -/
theorem settles_fieldInit (hexpr : SettlesExprs expr expr' room) :
    Settles (fieldInit expr) (fieldInit expr') true room := by
  refine .expect fun _ name => .expect fun _ colon => ?_
  have hvalue : Settles (expr .bottom) (expr' .bottom) true (room - 1 - 1) :=
    (hexpr .bottom).mono (by omega)
  exact hvalue.bind_taking fun _ value => .pure _

/-- Struct literals whose name has been taken. -/
theorem settles_structLiteral (hexpr : SettlesExprs expr expr' room) (hn : room < n)
    (hn' : room < n') (name : Token) :
    Settles (structLiteral n expr name) (structLiteral n' expr' name) false room := by
  have htype := settles_typeArgs (settles_typeRef hn hn') hn hn' name
  refine .within ((htype.within .type).bind fun type => .expect fun _ lbrace => ?_) _
  have hinits : Settles (openList .comma .rbrace (fieldInit expr) n)
      (openList .comma .rbrace (fieldInit expr') n') false (room - 1) :=
    settles_openList _ _ (settles_fieldInit (hexpr.mono (by omega))) (by omega) (by omega)
  exact (hinits.within _).bind fun inits => .expect fun _ rbrace => .pure _

/-- What begins with a name that has been taken. -/
theorem settles_named (hexpr : SettlesExprs expr expr' room) (hn : room < n) (hn' : room < n')
    (name : Token) : Settles (named n expr name) (named n' expr' name) false room := by
  refine .ite (.checkAny fun _ => .ite ?_ ?_) (.fail _)
  · exact settles_structLiteral hexpr hn hn' name
  · exact (settles_placeFrom hn hn' name).map _

/-- Expressions in parentheses whose first parenthesis has been taken. -/
theorem settles_group (hexpr : SettlesExprs expr expr' room) (lparen : Token) :
    Settles (group expr lparen) (group expr' lparen) false room :=
  .within ((hexpr .bottom).bind_taking fun _ _ => .expect fun _ _ => .pure _) _

/-- The operands of prefix operators that have been taken. -/
theorem settles_operand (hexpr : SettlesExprs expr expr' room) (p : Precedence) (op : UnaryOp)
    (opToken : Token) :
    Settles (operand expr p op opToken) (operand expr' p op opToken) false room :=
  .within ((hexpr p).bind_taking fun _ _ => .pure _) _

/-- Parameters take a token at least. -/
theorem settles_param (hn : room < n) (hn' : room < n') :
    Settles (param n) (param n') true room := by
  refine .expect fun _ name => ?_
  have htype : Settles (typeRef n) (typeRef n') true (room - 1) :=
    settles_typeRef (by omega) (by omega)
  exact htype.bind_taking fun _ type => .pure _

/-- Function bodies: every statement takes a token. -/
theorem settles_block (hstmt : Settles stmt stmt' true room) (hn : room < n) (hn' : room < n') :
    Settles (block stmt n) (block stmt' n') false room := by
  induction n generalizing room n' with
  | zero => omega
  | succ n ih =>
      obtain ⟨n', rfl⟩ := Nat.exists_eq_add_one_of_ne_zero (Nat.ne_zero_of_lt hn')
      refine .check (.pure _) (.check (.peek fun _ token => .fail _) ?_)
      refine hstmt.bind_taking fun _ first => ?_
      have hrest : Settles (block stmt n) (block stmt' n') false (room - 1) :=
        ih (hstmt.mono (by omega)) (by omega) (by omega)
      exact hrest.bind fun rest => .pure _

/-- Function literals whose keyword has been taken. -/
theorem settles_func (hstmt : Settles stmt stmt' true room) (hn : room < n) (hn' : room < n')
    (funcKw : Token) : Settles (func n stmt funcKw) (func n' stmt' funcKw) false room := by
  have rest (lparen : Token) (params : Separated Param) (rparen : Token) (result : Option TypeRef)
      {left : Nat} (hleft : left ≤ room) : Settles
        (do
          let lbrace ← expect .lbrace
          let body ← within .funcBody (block stmt n)
          let rbrace ← expect .rbrace
          return Expr.func funcKw lparen params rparen result lbrace body rbrace)
        (do
          let lbrace ← expect .lbrace
          let body ← within .funcBody (block stmt' n')
          let rbrace ← expect .rbrace
          return .func funcKw lparen params rparen result lbrace body rbrace) false left := by
    refine .expect fun _ lbrace => ?_
    have hbody : Settles (block stmt n) (block stmt' n') false (left - 1) :=
      settles_block (hstmt.mono (by omega)) (by omega) (by omega)
    exact (hbody.within _).bind fun body => .expect fun _ rbrace => .pure _
  refine .within (.expect fun _ lparen => ?_) _
  have hparams : Settles (closedList .comma .rparen (param n) n)
      (closedList .comma .rparen (param n') n') false (room - 1) :=
    settles_closedList _ _ (settles_param (by omega) (by omega)) (by omega) (by omega)
  refine (hparams.within _).bind fun params => .expect fun _ rparen => .check ?_ ?_
  · have hnone : Settles (Pure.pure none : Parse (Option TypeRef)) (Pure.pure none) false
        (room - 1 - 1) := .pure none
    exact hnone.bind fun result => rest lparen params rparen result (by omega)
  · have hresult : Settles (typeRef n) (typeRef n') true (room - 1 - 1) :=
      settles_typeRef (by omega) (by omega)
    exact (hresult.map some).bind_taking fun _ result => rest lparen params rparen result (by omega)

/-- What a token begins, under each rule for such tokens. -/
theorem settles_leading (hexpr : SettlesExprs expr expr' room)
    (hstmt : Settles stmt stmt' true room) (hn : room < n) (hn' : room < n') (rule : LeadingRule)
    (token : Token) :
    Settles (leading n expr stmt rule token) (leading n' expr' stmt' rule token) false room := by
  unfold leading
  cases rule with
  | literal =>
      dsimp only
      split
      · exact .pure _
      · exact .fail _
  | ident => exact settles_named hexpr hn hn' token
  | group => exact settles_group hexpr token
  | operator p =>
      dsimp only
      split
      · exact settles_operand hexpr p _ token
      · exact .fail _
  | func => exact settles_func hstmt hn hn' token

/-- Calls whose callee and first parenthesis have been taken. -/
theorem settles_call (hexpr : SettlesExprs expr expr' room) (hn : room < n) (hn' : room < n')
    (callee : Expr) (lparen : Token) :
    Settles (call n expr callee lparen) (call n' expr' callee lparen) false room := by
  refine .within ?_ _
  split
  · exact .fail _
  · have hargs := settles_closedList .comma .rparen (hexpr .bottom) hn hn'
    exact hargs.bind fun args => .expect fun _ rparen => .pure _

/-- What a token goes on with, under each rule for such tokens. -/
theorem settles_trailing (hexpr : SettlesExprs expr expr' room) (hn : room < n) (hn' : room < n')
    (rule : TrailingRule) (left : Expr) (token : Token) :
    Settles (trailing n expr rule left token) (trailing n' expr' rule left token) false room := by
  unfold trailing
  cases rule with
  | binary p groupsRight =>
      dsimp only
      split
      · exact .fail _
      · exact .within ((hexpr _).bind_taking fun _ right => .pure _) _
  | call => exact settles_call hexpr hn hn' left token

/-- Every operator and every call takes a token, so a bound above the number of tokens left is
enough for all that continue an expression. -/
theorem settles_extend (hexpr : SettlesExprs expr expr' room) (min : Precedence) (hn : room < n)
    (hn' : room < n') (left : Expr) :
    Settles (extend table expr min n left) (extend table expr' min n' left) false room := by
  induction n generalizing room n' left with
  | zero => omega
  | succ n ih =>
      obtain ⟨n', rfl⟩ := Nat.exists_eq_add_one_of_ne_zero (Nat.ne_zero_of_lt hn')
      unfold extend
      refine .peek fun _ next => ?_
      split
      · exact .pure _
      · rename_i rule _
        refine .ite (.pure _) (.advance fun _ token => ?_)
        have hlonger : Settles (trailing n expr rule left token) (trailing n' expr' rule left token)
            false (room - 1) :=
          settles_trailing (hexpr.mono (by omega)) (by omega) (by omega) rule left token
        refine hlonger.bind fun longer => ?_
        exact ih (hexpr.mono (by omega)) (by omega) (by omega) longer

/-- Type definitions take their keyword before anything that has a bound. -/
theorem settles_typeDefinition (hn : room ≤ n) (hn' : room ≤ n') :
    Settles (typeDefinition n) (typeDefinition n') true room := by
  refine .within (.expect fun _ typeKw => ?_) _
  have hname : Settles (typeRef n) (typeRef n') true (room - 1) :=
    settles_typeRef (by omega) (by omega)
  refine hname.bind_taking fun _ name => .expect fun _ eq => ?_
  have hdefinition : Settles (structDef n) (structDef n') true (room - 1 - 1 - 1) :=
    settles_structDef (by omega) (by omega)
  exact hdefinition.bind_taking fun _ definition => .expect fun _ semicolon => .pure _

/-- What follows the keyword of a definition or of an assignment. -/
theorem settles_placed (hexpr : SettlesExprs expr expr' room) (hn : room < n) (hn' : room < n')
    (make : Place → Token → Expr → Token → Stmt) :
    Settles
      (do
        let target ← place n
        let eq ← expect .eq
        let value ← expr .bottom
        let semicolon ← expect .semicolon
        return make target eq value semicolon)
      (do
        let target ← place n'
        let eq ← expect .eq
        let value ← expr' .bottom
        let semicolon ← expect .semicolon
        return make target eq value semicolon) false room := by
  refine (settles_place hn hn').bind_taking fun _ target => .expect fun _ eq => ?_
  have hvalue : Settles (expr .bottom) (expr' .bottom) true (room - 1 - 1) :=
    (hexpr .bottom).mono (by omega)
  exact hvalue.bind_taking fun _ value => .expect fun _ semicolon => .pure _

/-- Returns take a token at least. -/
theorem settles_returnStatement (hexpr : SettlesExprs expr expr' room) :
    Settles (returnStatement expr) (returnStatement expr') true room := by
  refine .within (.expect fun _ returnKw => .check ?_ ?_) _
  · have hnone : Settles (Pure.pure none : Parse (Option Expr)) (Pure.pure none) false (room - 1) :=
      .pure none
    exact hnone.bind fun value => .expect fun _ semicolon => .pure _
  · have hvalue : Settles (expr .bottom) (expr' .bottom) true (room - 1) :=
      (hexpr .bottom).mono (by omega)
    exact (hvalue.map some).bind_taking fun _ value => .expect fun _ semicolon => .pure _

/-- The first token of a statement is left to the expression that begins there, so the statement
needs no greater bound than that. -/
theorem settles_statement (hexpr : 0 < room → SettlesExprs expr expr' room) (hn : room ≤ n)
    (hn' : room ≤ n') : Settles (statement n expr) (statement n' expr') true room := by
  refine .within (.peek fun hroom first => ?_) _
  have hless : SettlesExprs expr expr' (room - 1) := (hexpr hroom).mono (by omega)
  cases first.kind with
  | typeKw => exact settles_typeDefinition hn hn'
  | letKw =>
      refine .within (.expect fun _ letKw => ?_) _
      exact settles_placed hless (by omega) (by omega) (.define letKw)
  | setKw =>
      refine .within (.expect fun _ setKw => ?_) _
      exact settles_placed hless (by omega) (by omega) (.assign setKw)
  | returnKw => exact settles_returnStatement (hexpr hroom)
  | _ =>
      refine .within ((hexpr hroom .bottom).bind_taking fun _ inner => ?_) _
      exact .expect fun _ semicolon => .pure _

end Expressions

/-! ### The whole reader -/

section Program

variable {table : OperatorTable} {stmt₁ stmt₂ : Parse Stmt} {room n n' : Nat}

/-- An expression takes its first token before it comes to a reader inside it. -/
theorem settles_expr_succ
    (hexpr : 0 < room → SettlesExprs (expr table n) (expr table n') (room - 1))
    (hstmt : 0 < room → Settles (stmt table n) (stmt table n') true (room - 1))
    (hn : 2 * room ≤ n + 1) (hn' : 2 * room ≤ n' + 1) :
    SettlesExprs (expr table (n + 1)) (expr table (n' + 1)) room := by
  intro min
  rw [expr, expr]
  refine .advance fun hroom token => ?_
  cases table.leading token.kind with
  | none => exact .fail _
  | some rule =>
      have hleft : Settles (leading n (expr table n) (stmt table n) rule token)
          (leading n' (expr table n') (stmt table n') rule token) false (room - 1) :=
        settles_leading (hexpr hroom) (hstmt hroom) (by omega) (by omega) rule token
      exact hleft.bind fun left => settles_extend (hexpr hroom) min (by omega) (by omega) left

/-- Two readers inside one another for every token left are enough. The two parts go together, since
either construct may hold the other; an expression in a statement may leave as many tokens as the
statement, so the statement has to have one more. -/
theorem settles_expr_and_stmt :
    (0 < n → 2 * room ≤ n → 0 < n' → 2 * room ≤ n' →
      SettlesExprs (expr table n) (expr table n') room) ∧
    (2 * room < n → 2 * room < n' → Settles (stmt table n) (stmt table n') true room) := by
  induction n generalizing room n' with
  | zero => exact ⟨by omega, by omega⟩
  | succ n ih =>
      constructor
      · intro _ hn hpos hn'
        obtain ⟨n', rfl⟩ := Nat.exists_eq_add_one_of_ne_zero (Nat.ne_zero_of_lt hpos)
        apply settles_expr_succ _ _ hn hn'
        · intro hroom
          exact ih.1 (by omega) (by omega) (by omega) (by omega)
        · intro hroom
          exact ih.2 (by omega) (by omega)
      · intro hn hn'
        obtain ⟨n', rfl⟩ := Nat.exists_eq_add_one_of_ne_zero (Nat.ne_zero_of_lt hn')
        rw [stmt, stmt]
        apply settles_statement _ (by omega) (by omega)
        intro hroom
        exact ih.1 (by omega) (by omega) (by omega) (by omega)

/-- Programs: every statement takes a token. -/
theorem settles_program (hstmt : Settles stmt₁ stmt₂ true room) (hn : room < n) (hn' : room < n') :
    Settles (program stmt₁ n) (program stmt₂ n') false room := by
  induction n generalizing room n' with
  | zero => omega
  | succ n ih =>
      obtain ⟨n', rfl⟩ := Nat.exists_eq_add_one_of_ne_zero (Nat.ne_zero_of_lt hn')
      unfold program
      refine .state fun c => .ite (.peek fun _ next => ?_) (.pure _)
      cases next.kind with
      | eof => exact .advance fun _ token => .pure _
      | rbrace => exact .fail _
      | _ =>
          refine hstmt.bind_taking fun _ first => ?_
          have hrest : Settles (program stmt₁ n) (program stmt₂ n') false (room - 1) :=
            ih (hstmt.mono (by omega)) (by omega) (by omega)
          exact hrest.bind fun rest => .pure _

/-- A reader that settles wherever no more tokens are left than at a cursor, whether it is given a
bound `n` or the one taken from the cursor, gives at the cursor under `n` what it gives under the
other. -/
theorem Settles.atCursor_eq {α : Type} {p : Nat → Parse α} {taking : Bool} {c : Cursor}
    (h : Settles (p n) (p (nestingBound c)) taking c.remaining.length) :
    p n c = some (atCursor p c) := by
  obtain ⟨r, d, hn, hbound, -⟩ := h c (Nat.le_refl _)
  unfold atCursor
  rw [hn, hbound]

/-- **Reading ends**: with any table of operators and at any place of any buffer of tokens, the
readers of expressions, statements and programs give a tree or an error, and for that no more than
two readers inside one another are needed for each token left, beside the reader itself: what they
give is the same under every such bound on the nesting. -/
theorem readers_end (table : OperatorTable) (c : Cursor) {n : Nat}
    (hn : 2 * c.remaining.length < n) :
    (∀ min, expr table n min c = some (readExpr table min c)) ∧
      stmt table n c = some (readStmt table c) ∧
      program (stmt table n) n c = some (readProgram table c) := by
  have hbound : 2 * c.remaining.length < nestingBound c := by
    unfold nestingBound
    omega
  have hexprs : SettlesExprs (expr table n) (expr table (nestingBound c)) c.remaining.length :=
    settles_expr_and_stmt.1 (by omega) (by omega) (by omega) (by omega)
  have hstmt : Settles (stmt table n) (stmt table (nestingBound c)) true c.remaining.length :=
    settles_expr_and_stmt.2 hn hbound
  have hprogram : Settles (program (stmt table n) n)
      (program (stmt table (nestingBound c)) (nestingBound c)) false c.remaining.length :=
    settles_program hstmt (by omega) (by omega)
  refine ⟨fun min => ?_, ?_, ?_⟩
  · exact (hexprs min).atCursor_eq (p := (expr table · min))
  · exact hstmt.atCursor_eq
  · exact hprogram.atCursor_eq (p := fun n => program (stmt table n) n)

/-- A semicolon that opens a group, the end of the text inside it, and a name after the end. -/
theorem readers_end_open_group :
    2 * (Cursor.ofTokens [⟨.semicolon, ";", .start ""⟩, ⟨.eof, "", .start ""⟩,
        ⟨.ident, "x", .start ""⟩]).remaining.length < 7 ∧
      stmt (.setLeading .semicolon .group .standard) 7 (.ofTokens [⟨.semicolon, ";", .start ""⟩,
          ⟨.eof, "", .start ""⟩, ⟨.ident, "x", .start ""⟩]) =
        some (readStmt (.setLeading .semicolon .group .standard) (.ofTokens
          [⟨.semicolon, ";", .start ""⟩, ⟨.eof, "", .start ""⟩, ⟨.ident, "x", .start ""⟩])) :=
  ⟨by decide, (readers_end _ _ (by decide)).2.1⟩

end Program

end StructScript.Parse
