import StructScript.ParseTree

/-!
# The tokens of a parse tree

The *yield* of a tree is the list of its tokens in the order in which they stand in the source,
separators and brackets among them. The yield of a list of items is given once for all lists
(`Separated.yield`); where a tree holds trees of its own kind, the list is walked by a function of
its own, which is equal to that one (`TypeRef.argsYield_eq`, `Expr.argsYield_eq`,
`Expr.initsYield_eq`).

The first and the last token of a tree are given by functions that go down one side of it only.
That they are the ends of the yield is `ends_of_yield`.
-/

namespace StructScript.ParseTree

/-- The tokens of a list, each item before its separator. -/
def Separated.yield {α : Type} (item : α → List Token) : Separated α → List Token
  | [] => []
  | ⟨a, separator⟩ :: rest => item a ++ (separator.toList ++ Separated.yield item rest)

/-- The tokens of a type. -/
def TypeRef.yield : TypeRef → List Token
  | plain name => [name]
  | applied name lbracket args rbracket => name :: lbracket :: (argsYield args ++ [rbracket])
where
  /-- The tokens of some arguments. -/
  argsYield : List (Item TypeRef) → List Token
    | [] => []
    | ⟨type, separator⟩ :: rest => type.yield ++ (separator.toList ++ argsYield rest)

/-- The tokens of a place. -/
def Place.yield : Place → List Token
  | var name => [name]
  | field base arrow name => base.yield ++ [arrow, name]

/-- How many fields stand behind the variable of a place. -/
def Place.depth : Place → Nat
  | var _ => 0
  | field base _ _ => base.depth + 1

/-- The tokens of the parameters of a struct definition. -/
def TypeParams.yield (p : TypeParams) : List Token :=
  p.lbracket :: (Separated.yield (fun name => [name]) p.names ++ [p.rbracket])

/-- A group of fields as an item of a list, which its semicolon separates. -/
def FieldGroup.toItem (g : FieldGroup) : Item (Separated Token × TypeRef) :=
  ⟨(g.names, g.type), g.semicolon⟩

/-- The tokens of a group of fields without its semicolon. -/
def FieldGroup.itemYield (g : Separated Token × TypeRef) : List Token :=
  Separated.yield (fun name => [name]) g.1 ++ g.2.yield

/-- The tokens of a group of fields. -/
def FieldGroup.yield (g : FieldGroup) : List Token :=
  itemYield (g.names, g.type) ++ g.semicolon.toList

/-- The tokens of a struct definition. -/
def StructDef.yield (d : StructDef) : List Token :=
  d.structKw :: ((d.params.elim [] TypeParams.yield) ++
    (d.lbrace :: (d.groups.flatMap FieldGroup.yield ++ [d.rbrace])))

/-- The tokens of a parameter. -/
def Param.yield (p : Param) : List Token := p.name :: p.type.yield

mutual

/-- The tokens of an expression. -/
def Expr.yield : Expr → List Token
  | .literal _ token => [token]
  | .place p => p.yield
  | .struct type lbrace inits rbrace =>
    type.yield ++ (lbrace :: (Expr.initsYield inits ++ [rbrace]))
  | .unary _ opToken operand => opToken :: operand.yield
  | .binary left _ opToken right => left.yield ++ (opToken :: right.yield)
  | .group lparen inner rparen => lparen :: (inner.yield ++ [rparen])
  | .call callee lparen args rparen =>
    callee.yield ++ (lparen :: (Expr.argsYield args ++ [rparen]))
  | .func funcKw lparen params rparen result lbrace body rbrace =>
    funcKw :: lparen :: (Separated.yield Param.yield params ++
      (rparen :: (result.elim [] TypeRef.yield ++ (lbrace :: (Stmt.listYield body ++ [rbrace])))))

/-- The tokens of an initialiser. -/
def FieldInit.yield : FieldInit → List Token
  | ⟨name, colon, value⟩ => name :: colon :: value.yield

/-- The tokens of some initialisers. -/
def Expr.initsYield : List (Item FieldInit) → List Token
  | [] => []
  | ⟨init, separator⟩ :: rest => init.yield ++ (separator.toList ++ Expr.initsYield rest)

/-- The tokens of some arguments. -/
def Expr.argsYield : List (Item Expr) → List Token
  | [] => []
  | ⟨arg, separator⟩ :: rest => arg.yield ++ (separator.toList ++ Expr.argsYield rest)

/-- The tokens of a statement. -/
def Stmt.yield : Stmt → List Token
  | .typeDef typeKw name eq definition semicolon =>
    typeKw :: (name.yield ++ (eq :: (definition.yield ++ [semicolon])))
  | .define letKw target eq value semicolon =>
    letKw :: (target.yield ++ (eq :: (value.yield ++ [semicolon])))
  | .assign setKw target eq value semicolon =>
    setKw :: (target.yield ++ (eq :: (value.yield ++ [semicolon])))
  | .ret returnKw (some value) semicolon => returnKw :: (value.yield ++ [semicolon])
  | .ret returnKw none semicolon => [returnKw, semicolon]
  | .expr e semicolon => e.yield ++ [semicolon]

/-- The tokens of some statements. -/
def Stmt.listYield : List Stmt → List Token
  | [] => []
  | stmt :: rest => stmt.yield ++ Stmt.listYield rest

end

/-- The tokens of a program. -/
def Program.yield (p : Program) : List Token := Stmt.listYield p.stmts ++ p.eof.toList

/-! ### Lists inside trees -/

/-- The tokens of statements behind others stand behind theirs. -/
theorem Stmt.listYield_append (stmts others : List Stmt) :
    listYield (stmts ++ others) = listYield stmts ++ listYield others := by
  induction stmts with
  | nil => rfl
  | cons stmt rest ih => rw [List.cons_append, listYield, listYield, ih, List.append_assoc]

/-- The tokens of type arguments are those of a separated list. -/
theorem TypeRef.argsYield_eq (args : List (Item TypeRef)) :
    TypeRef.yield.argsYield args = Separated.yield TypeRef.yield args := by
  induction args with
  | nil => rfl
  | cons item rest ih => rw [TypeRef.yield.argsYield, Separated.yield, ih]

/-- So are those of field groups, with the semicolons as separators. -/
theorem FieldGroup.flatMap_yield_eq (groups : List FieldGroup) :
    groups.flatMap FieldGroup.yield =
      Separated.yield FieldGroup.itemYield (groups.map FieldGroup.toItem) := by
  induction groups with
  | nil => rfl
  | cons g rest ih =>
      rw [List.flatMap_cons, List.map_cons, ih, FieldGroup.yield, FieldGroup.toItem,
        Separated.yield, List.append_assoc]

/-- So are those of initialisers. -/
theorem Expr.initsYield_eq (inits : List (Item FieldInit)) :
    Expr.initsYield inits = Separated.yield FieldInit.yield inits := by
  induction inits with
  | nil => rfl
  | cons item rest ih => rw [Expr.initsYield, Separated.yield, ih]

/-- So are those of the arguments of a call. -/
theorem Expr.argsYield_eq (args : List (Item Expr)) :
    Expr.argsYield args = Separated.yield Expr.yield args := by
  induction args with
  | nil => rfl
  | cons item rest ih => rw [Expr.argsYield, Separated.yield, ih]

/-- The tokens of an item are among those of the list that it is in. -/
theorem Separated.mem_yield {α : Type} {items : Separated α} {item : α → List Token} {a : α}
    {t : Token} (ha : a ∈ values items) (ht : t ∈ item a) : t ∈ Separated.yield item items := by
  induction items with
  | nil => cases ha
  | cons first rest ih =>
      rw [Separated.yield]
      rcases List.mem_cons.mp ha with rfl | ha
      · exact List.mem_append_left _ ht
      · exact List.mem_append_right _ (List.mem_append_right _ (ih ha))

/-! ### The ends of a yield -/

/-- A type begins with its name. -/
theorem TypeRef.yield_eq_cons (type : TypeRef) : type.yield = type.name :: type.yield.tail := by
  cases type <;> rfl

/-- A type has a token. -/
theorem TypeRef.yield_ne_nil (type : TypeRef) : type.yield ≠ [] := by
  rw [type.yield_eq_cons]
  exact List.cons_ne_nil _ _

/-- A type ends with its last token. -/
theorem TypeRef.getLast?_yield (type : TypeRef) : type.yield.getLast? = some type.lastToken := by
  cases type with
  | plain => rfl
  | applied => simp [yield, lastToken, List.getLast?_cons]

/-- A place begins with its first token. -/
theorem Place.yield_eq_cons : ∀ p : Place, p.yield = p.firstToken :: p.yield.tail
  | .var _ => rfl
  | .field base _ _ => by
      rw [Place.yield, base.yield_eq_cons]
      rfl

/-- A place ends with its last token. -/
theorem Place.getLast?_yield (p : Place) : p.yield.getLast? = some p.lastToken := by
  cases p with
  | var => rfl
  | field => simp [yield, lastToken]

/-- An expression begins with its first token. -/
theorem Expr.head?_yield : (e : Expr) → e.yield.head? = some e.firstToken
  | .literal .. => rfl
  | .place p => by
      rw [Expr.yield, p.yield_eq_cons]
      rfl
  | .struct type .. => by
      rw [Expr.yield, type.yield_eq_cons]
      rfl
  | .unary .. => rfl
  | .binary left .. => by
      rw [Expr.yield, List.head?_append, left.head?_yield]
      rfl
  | .group .. => rfl
  | .call callee .. => by
      rw [Expr.yield, callee.yield_eq_cons]
      rfl
  | .func .. => rfl

/-- An expression ends with its last token. -/
theorem Expr.getLast?_yield : (e : Expr) → e.yield.getLast? = some e.lastToken
  | .literal .. => rfl
  | .place p => p.getLast?_yield
  | .struct .. => by simp [Expr.yield, lastToken, List.getLast?_cons]
  | .unary _ _ operand => by
      rw [Expr.yield, List.getLast?_cons, operand.getLast?_yield]
      rfl
  | .binary _ _ _ right => by
      rw [Expr.yield, List.getLast?_append, List.getLast?_cons, right.getLast?_yield]
      rfl
  | .group .. => by simp [Expr.yield, lastToken, List.getLast?_cons]
  | .call .. => by simp [Expr.yield, lastToken, List.getLast?_cons]
  | .func .. => by simp [Expr.yield, lastToken, List.getLast?_cons]

/-- A statement begins with its first token. -/
theorem Stmt.head?_yield : (s : Stmt) → s.yield.head? = some s.firstToken
  | .typeDef .. => rfl
  | .define .. => rfl
  | .assign .. => rfl
  | .ret _ (some _) _ => rfl
  | .ret _ none _ => rfl
  | .expr e _ => by
      rw [Stmt.yield, List.head?_append, e.head?_yield]
      rfl

/-- A statement ends with its last token. -/
theorem Stmt.getLast?_yield : (s : Stmt) → s.yield.getLast? = some s.lastToken
  | .typeDef .. => by simp [Stmt.yield, lastToken, List.getLast?_cons]
  | .define .. => by simp [Stmt.yield, lastToken, List.getLast?_cons]
  | .assign .. => by simp [Stmt.yield, lastToken, List.getLast?_cons]
  | .ret _ (some _) _ => by simp [Stmt.yield, lastToken, List.getLast?_cons]
  | .ret _ none _ => rfl
  | .expr .. => by simp [Stmt.yield, lastToken]

/-- **The first and the last token are the ends of the yield**, of every expression, statement,
place and type. -/
theorem ends_of_yield :
    (∀ e : Expr, e.yield.head? = some e.firstToken ∧ e.yield.getLast? = some e.lastToken) ∧
    (∀ s : Stmt, s.yield.head? = some s.firstToken ∧ s.yield.getLast? = some s.lastToken) ∧
    (∀ p : Place, p.yield.head? = some p.firstToken ∧ p.yield.getLast? = some p.lastToken) ∧
    ∀ type : TypeRef, type.yield.head? = some type.firstToken ∧
      type.yield.getLast? = some type.lastToken := by
  refine ⟨fun e => ⟨e.head?_yield, e.getLast?_yield⟩, fun s => ⟨s.head?_yield, s.getLast?_yield⟩,
    fun p => ⟨?_, p.getLast?_yield⟩, fun type => ⟨?_, type.getLast?_yield⟩⟩
  · rw [p.yield_eq_cons]
    rfl
  · rw [type.yield_eq_cons]
    rfl

/-! ### Lengths -/

/-- A place has more tokens than fields. -/
theorem Place.depth_lt_length_yield : ∀ p : Place, p.depth < p.yield.length
  | .var _ => Nat.zero_lt_one
  | .field base _ _ => by
      have hbase := base.depth_lt_length_yield
      simp only [Place.depth, Place.yield, List.length_append, List.length_cons, List.length_nil]
      omega

section Lengths

variable {α : Type} {items : Separated α} (yield : α → List Token)

/-- An item has no more tokens than the list that it is in. -/
theorem Separated.length_yield_le {a : α} (h : a ∈ values items) :
    (yield a).length ≤ (Separated.yield yield items).length := by
  induction items with
  | nil => cases h
  | cons item rest ih =>
      simp only [Separated.yield, List.length_append]
      rcases List.mem_cons.mp h with rfl | h
      · exact Nat.le_add_right _ _
      · have hrest := ih h
        omega

/-- If each item has a token, the list has as many tokens as items. -/
theorem Separated.length_le_length_yield (h : ∀ a ∈ values items, yield a ≠ []) :
    items.length ≤ (Separated.yield yield items).length := by
  induction items with
  | nil => exact Nat.le_refl 0
  | cons item rest ih =>
      have hitem : 0 < (yield item.value).length :=
        List.length_pos_iff.mpr (h _ List.mem_cons_self)
      have hrest := ih fun a ha => h a (List.mem_cons_of_mem _ ha)
      simp only [Separated.yield, List.length_append, List.length_cons]
      omega

end Lengths

end StructScript.ParseTree
