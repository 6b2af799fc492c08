import StructScript.Proofs.Grammar.Parts

/-!
# What stands around the parts of parse trees

A part stands in a tree behind some of the tree's tokens and before the others. `Part.ChildBetween`
says so of the parts that stand directly in a tree, `Part.Between` of those at any depth, and
`Program.Between` of those in programs. The tokens around it tell one place of a part from another.

Every part that stands in a tree has such a place: `Part.in_iff_between`,
`Program.in_iff_between`.
-/

namespace StructScript.ParseTree

namespace Separated

variable {α : Type} (item : α → List Token)

/-- The tokens of a list in two parts are those of the parts. -/
theorem yield_append (items others : Separated α) :
    Separated.yield item (items ++ others) =
      Separated.yield item items ++ Separated.yield item others := by
  induction items with
  | nil => rfl
  | cons first rest ih =>
      rw [List.cons_append, Separated.yield, Separated.yield, ih]
      simp only [List.append_assoc]

/-- Every item stands somewhere in its list. -/
theorem mem_values_iff {items : Separated α} {a : α} :
    a ∈ values items ↔ ∃ before separator after, items = before ++ ⟨a, separator⟩ :: after := by
  unfold values
  constructor
  · intro h
    obtain ⟨⟨b, separator⟩, hmem, rfl⟩ := List.mem_map.mp h
    obtain ⟨before, after, rfl⟩ := List.append_of_mem hmem
    exact ⟨before, separator, after, rfl⟩
  · rintro ⟨before, separator, after, rfl⟩
    simp

end Separated

namespace Part

/-- The tokens of a part. -/
def yield : Part → List Token
  | expr e => e.yield
  | init i => i.yield
  | stmt s => s.yield

/-- The part stands directly in the other one, with these tokens of the other one before it and
behind it. -/
inductive ChildBetween : List Token → List Token → Part → Part → Prop where
  | init (type : TypeRef) (lbrace : Token) (before : Separated FieldInit) (i : FieldInit)
      (separator : Option Token) (after : Separated FieldInit) (rbrace : Token) :
      ChildBetween (type.yield ++ lbrace :: Separated.yield FieldInit.yield before)
        (separator.toList ++ (Separated.yield FieldInit.yield after ++ [rbrace]))
        (.init i) (.expr (.struct type lbrace (before ++ ⟨i, separator⟩ :: after) rbrace))
  | initValue (name colon : Token) (e : Expr) :
      ChildBetween [name, colon] [] (.expr e) (.init ⟨name, colon, e⟩)
  | operand (op : UnaryOp) (opToken : Token) (e : Expr) :
      ChildBetween [opToken] [] (.expr e) (.expr (.unary op opToken e))
  | left (op : BinaryOp) (opToken : Token) (left right : Expr) :
      ChildBetween [] (opToken :: right.yield) (.expr left) (.expr (.binary left op opToken right))
  | right (op : BinaryOp) (opToken : Token) (left right : Expr) :
      ChildBetween (left.yield ++ [opToken]) [] (.expr right)
        (.expr (.binary left op opToken right))
  | inner (lparen : Token) (e : Expr) (rparen : Token) :
      ChildBetween [lparen] [rparen] (.expr e) (.expr (.group lparen e rparen))
  | arg (callee : Place) (lparen : Token) (before : Separated Expr) (e : Expr)
      (separator : Option Token) (after : Separated Expr) (rparen : Token) :
      ChildBetween (callee.yield ++ lparen :: Separated.yield Expr.yield before)
        (separator.toList ++ (Separated.yield Expr.yield after ++ [rparen]))
        (.expr e) (.expr (.call callee lparen (before ++ ⟨e, separator⟩ :: after) rparen))
  | body (funcKw lparen : Token) (params : Separated Param) (rparen : Token)
      (result : Option TypeRef) (lbrace : Token) (before : List Stmt) (s : Stmt)
      (after : List Stmt) (rbrace : Token) :
      ChildBetween
        (funcKw :: lparen :: (Separated.yield Param.yield params ++ (rparen ::
          (result.elim [] TypeRef.yield ++ (lbrace :: Stmt.listYield before)))))
        (Stmt.listYield after ++ [rbrace]) (.stmt s)
        (.expr (.func funcKw lparen params rparen result lbrace (before ++ s :: after) rbrace))
  | defined (letKw : Token) (target : Place) (eq : Token) (e : Expr) (semicolon : Token) :
      ChildBetween (letKw :: (target.yield ++ [eq])) [semicolon] (.expr e)
        (.stmt (.define letKw target eq e semicolon))
  | assigned (setKw : Token) (target : Place) (eq : Token) (e : Expr) (semicolon : Token) :
      ChildBetween (setKw :: (target.yield ++ [eq])) [semicolon] (.expr e)
        (.stmt (.assign setKw target eq e semicolon))
  | returned (returnKw : Token) (e : Expr) (semicolon : Token) :
      ChildBetween [returnKw] [semicolon] (.expr e) (.stmt (.ret returnKw (some e) semicolon))
  | statement (e : Expr) (semicolon : Token) :
      ChildBetween [] [semicolon] (.expr e) (.stmt (.expr e semicolon))

/-- The part is the other one or stands in it at any depth, with these tokens of the other one
before it and behind it. -/
inductive Between : List Token → List Token → Part → Part → Prop where
  | refl (part : Part) : Between [] [] part part
  | tail {before after before' after' : List Token} {part inner whole : Part}
      (h : Between before after part inner) (hchild : ChildBetween before' after' inner whole) :
      Between (before' ++ before) (after ++ after') part whole

variable {before after : List Token} {part whole : Part}

/-- The tokens of a node are those of a child with what stands on its two sides. -/
theorem ChildBetween.yield_eq (h : ChildBetween before after part whole) :
    whole.yield = before ++ (part.yield ++ after) := by
  cases h <;>
    simp [Part.yield, Expr.yield, FieldInit.yield, Stmt.yield, Expr.initsYield_eq,
      Expr.argsYield_eq, Separated.yield_append, Separated.yield, Stmt.listYield_append,
      Stmt.listYield]

/-- So it is with a part at any depth. -/
theorem Between.yield_eq (h : Between before after part whole) :
    whole.yield = before ++ (part.yield ++ after) := by
  induction h with
  | refl => simp
  | tail _ hchild ih =>
      rw [hchild.yield_eq, ih]
      simp only [List.append_assoc]

/-- A child is what stands between some tokens of the node. -/
theorem childOf_iff_between :
    part.ChildOf whole ↔ ∃ before after, ChildBetween before after part whole := by
  constructor
  · intro h
    cases h with
    | init hmem type lbrace rbrace =>
        obtain ⟨before, separator, after, rfl⟩ := Separated.mem_values_iff.mp hmem
        exact ⟨_, _, .init type lbrace before _ separator after rbrace⟩
    | arg hmem callee lparen rparen =>
        obtain ⟨before, separator, after, rfl⟩ := Separated.mem_values_iff.mp hmem
        exact ⟨_, _, .arg callee lparen before _ separator after rparen⟩
    | body hmem funcKw lparen params rparen result lbrace rbrace =>
        obtain ⟨before, after, rfl⟩ := List.append_of_mem hmem
        exact ⟨_, _, .body funcKw lparen params rparen result lbrace before _ after rbrace⟩
    | initValue | operand | left | right | inner | defined | assigned | returned | statement =>
        exact ⟨_, _, by constructor⟩
  · rintro ⟨before, after, h⟩
    cases h with
    | init => exact .init (Separated.mem_values_iff.mpr ⟨_, _, _, rfl⟩) _ _ _
    | arg => exact .arg (Separated.mem_values_iff.mpr ⟨_, _, _, rfl⟩) _ _ _
    | body => exact .body (by simp) _ _ _ _ _ _ _
    | initValue | operand | left | right | inner | defined | assigned | returned | statement =>
        constructor

/-- A part stands in a tree exactly if it stands between some tokens of the tree. -/
theorem in_iff_between : part.In whole ↔ ∃ before after, Between before after part whole := by
  constructor
  · intro h
    induction h with
    | refl => exact ⟨[], [], .refl part⟩
    | tail _ hchild ih =>
        obtain ⟨before, after, h⟩ := ih
        obtain ⟨before', after', hchild⟩ := childOf_iff_between.mp hchild
        exact ⟨_, _, h.tail hchild⟩
  · rintro ⟨before, after, h⟩
    induction h with
    | refl => exact .refl
    | tail _ hchild ih => exact ih.tail (childOf_iff_between.mpr ⟨_, _, hchild⟩)

end Part

namespace Program

/-- The part stands in the program, with these tokens of the program before it and behind it. -/
inductive Between : List Token → List Token → Part → Program → Prop where
  | mk {before after : List Token} {part : Part} {s : Stmt}
      (h : Part.Between before after part (.stmt s)) (stmts others : List Stmt)
      (eof : Option Token) :
      Between (Stmt.listYield stmts ++ before)
        (after ++ (Stmt.listYield others ++ eof.toList)) part ⟨stmts ++ s :: others, eof⟩

variable {before after : List Token} {part : Part} {p : Program}

/-- The tokens of a program are those of a part with what stands on its two sides. -/
theorem Between.yield_eq (h : Between before after part p) :
    p.yield = before ++ (part.yield ++ after) := by
  obtain ⟨h, stmts, others, eof⟩ := h
  have hs : Stmt.yield _ = _ := h.yield_eq
  simp [Program.yield, Stmt.listYield_append, Stmt.listYield, hs]

/-- A part stands in a program exactly if it stands between some tokens of the program. -/
theorem in_iff_between :
    (∃ s ∈ p.stmts, part.In (.stmt s)) ↔ ∃ before after, Between before after part p := by
  constructor
  · rintro ⟨s, hs, hin⟩
    obtain ⟨stmts, eof⟩ := p
    obtain ⟨stmts, others, rfl⟩ := List.append_of_mem hs
    obtain ⟨before, after, h⟩ := Part.in_iff_between.mp hin
    exact ⟨_, _, .mk h stmts others eof⟩
  · rintro ⟨_, _, h, stmts, others, eof⟩
    exact ⟨_, by simp, Part.in_iff_between.mpr ⟨_, _, h⟩⟩

end Program

end StructScript.ParseTree
