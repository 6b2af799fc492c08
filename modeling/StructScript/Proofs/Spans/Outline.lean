import StructScript.Ast

/-!
# Outlines

An *outline* of a tree keeps how its nodes stand in one another and in which order, and one label
for each node. The outline of abstract syntax labels each node with its kind and its span, if it has
one (`Ast.Mark`). Parameters and programs have none, and a place or a statement that is nothing but
a name or an expression is that node.
-/

namespace StructScript

/-- A tree of labels. -/
inductive Outline (α : Type) where
  | node (label : α) (parts : List (Outline α))

namespace Outline

variable {α β : Type}

/-- The label of the outermost node. -/
def label : Outline α → α
  | node label _ => label

mutual

/-- Change all labels. -/
def map (f : α → β) : Outline α → Outline β
  | node label parts => node (f label) (mapAll f parts)

/-- Change all labels of some outlines. -/
def mapAll (f : α → β) : List (Outline α) → List (Outline β)
  | [] => []
  | part :: parts => part.map f :: mapAll f parts

end

/-- Outlines are mapped one after another. -/
theorem mapAll_eq (f : α → β) (parts : List (Outline α)) : mapAll f parts = parts.map (map f) := by
  induction parts with
  | nil => rfl
  | cons part parts ih => rw [mapAll, ih, List.map_cons]

/-- A node is mapped in its label and in its parts. -/
@[simp] theorem map_node (f : α → β) (label : α) (parts : List (Outline α)) :
    (node label parts).map f = node (f label) (parts.map (map f)) := by
  rw [map, mapAll_eq]

/-- A node of the outline has the label. -/
inductive Has (a : α) : Outline α → Prop where
  | root (parts : List (Outline α)) : Has a (node a parts)
  | part {part : Outline α} {parts : List (Outline α)} (hmem : part ∈ parts) (h : part.Has a)
      (label : α) : Has a (node label parts)

/-- What a mapped outline has is the image of what the outline has. -/
theorem Has.of_map {f : α → β} {b : β} {o : Outline α} (h : (o.map f).Has b) :
    ∃ a, o.Has a ∧ f a = b := by
  generalize ho : o.map f = o' at h
  induction h generalizing o with
  | root parts =>
      obtain ⟨label, parts⟩ := o
      rw [map_node] at ho
      cases ho
      exact ⟨label, .root _, rfl⟩
  | part hmem h label ih =>
      obtain ⟨label, parts⟩ := o
      rw [map_node] at ho
      cases ho
      obtain ⟨part, hpart, rfl⟩ := List.mem_map.mp hmem
      obtain ⟨a, ha, hb⟩ := ih rfl
      exact ⟨a, .part hpart ha label, hb⟩

end Outline

namespace Ast

/-- What a node of abstract syntax is. -/
inductive NodeKind where
  | ident | type | place | fieldGroup | structDef | param | expr | init | func | stmt | program
  deriving DecidableEq, Repr

/-- The kind of a node and its span, if it has one. -/
structure Mark where
  kind : NodeKind
  span : Option Span
  deriving DecidableEq, Repr

/-- A name. -/
def Ident.outline (i : Ident) : Outline Mark := .node ⟨.ident, some i.span⟩ []

/-- A type: its name and its arguments. -/
def TypeExpr.outline : TypeExpr → Outline Mark
  | mk name args span => .node ⟨.type, some span⟩ (name.outline :: argsOutlines args)
where
  /-- The arguments in turn. -/
  argsOutlines : List TypeExpr → List (Outline Mark)
    | [] => []
    | type :: rest => type.outline :: argsOutlines rest

/-- A place: its base and its field. -/
def Place.outline : Place → Outline Mark
  | var name => name.outline
  | field base name span => .node ⟨.place, some span⟩ [base.outline, name.outline]

/-- A group of fields: the names and the type. -/
def FieldGroup.outline (g : FieldGroup) : Outline Mark :=
  .node ⟨.fieldGroup, some g.span⟩ (g.names.map Ident.outline ++ [g.type.outline])

/-- A struct definition: the parameters and the groups of fields. -/
def StructDef.outline (d : StructDef) : Outline Mark :=
  .node ⟨.structDef, some d.span⟩ (d.params.map Ident.outline ++ d.groups.map FieldGroup.outline)

/-- A parameter: its name and its type. -/
def Param.outline (p : Param) : Outline Mark :=
  .node ⟨.param, none⟩ [p.name.outline, p.type.outline]

mutual

/-- An expression. -/
def Expr.outline : Expr → Outline Mark
  | ⟨node, span⟩ => .node ⟨.expr, some span⟩ node.outlines

/-- The parts of an expression in turn. -/
def Node.outlines : Node → List (Outline Mark)
  | .literal .. => []
  | .place p => [p.outline]
  | .struct type inits => type.outline :: Node.initsOutlines inits
  | .unary _ operand => [operand.outline]
  | .binary _ left right => [left.outline, right.outline]
  | .call callee args => callee.outline :: Node.argsOutlines args
  | .func f => [f.outline]

/-- An initialiser: its name and its value. -/
def FieldInit.outline : FieldInit → Outline Mark
  | ⟨name, value, span⟩ => .node ⟨.init, some span⟩ [name.outline, value.outline]

/-- Some initialisers in turn. -/
def Node.initsOutlines : List FieldInit → List (Outline Mark)
  | [] => []
  | init :: rest => init.outline :: Node.initsOutlines rest

/-- Some arguments in turn. -/
def Node.argsOutlines : List Expr → List (Outline Mark)
  | [] => []
  | arg :: rest => arg.outline :: Node.argsOutlines rest

/-- A function literal: the parameters, the type of the result and the statements. -/
def FuncDef.outline : FuncDef → Outline Mark
  | ⟨params, result, body, span, _⟩ => .node ⟨.func, some span⟩
      (params.map Param.outline ++ (result.toList.map TypeExpr.outline ++ Stmt.outlines body))

/-- A statement. -/
def Stmt.outline : Stmt → Outline Mark
  | .typeDef name definition span => .node ⟨.stmt, some span⟩ [name.outline, definition.outline]
  | .define target value span => .node ⟨.stmt, some span⟩ [target.outline, value.outline]
  | .assign target value span => .node ⟨.stmt, some span⟩ [target.outline, value.outline]
  | .ret (some value) span => .node ⟨.stmt, some span⟩ [value.outline]
  | .ret none span => .node ⟨.stmt, some span⟩ []
  | .expr e => e.outline

/-- Some statements in turn. -/
def Stmt.outlines : List Stmt → List (Outline Mark)
  | [] => []
  | stmt :: rest => stmt.outline :: Stmt.outlines rest

end

/-- A program: its statements. -/
def Program.outline (p : Program) : Outline Mark :=
  .node ⟨.program, none⟩ (Stmt.outlines p.stmts)

/-! ### Lists inside trees -/

/-- The outlines of type arguments. -/
theorem TypeExpr.argsOutlines_eq (args : List TypeExpr) :
    TypeExpr.outline.argsOutlines args = args.map TypeExpr.outline := by
  induction args with
  | nil => rfl
  | cons type rest ih => rw [TypeExpr.outline.argsOutlines, ih, List.map_cons]

/-- The outlines of initialisers. -/
theorem Node.initsOutlines_eq (inits : List FieldInit) :
    initsOutlines inits = inits.map FieldInit.outline := by
  induction inits with
  | nil => rfl
  | cons init rest ih => rw [initsOutlines, ih, List.map_cons]

/-- The outlines of the arguments of a call. -/
theorem Node.argsOutlines_eq (args : List Expr) : argsOutlines args = args.map Expr.outline := by
  induction args with
  | nil => rfl
  | cons arg rest ih => rw [argsOutlines, ih, List.map_cons]

/-- The outlines of statements. -/
theorem Stmt.outlines_eq (stmts : List Stmt) : outlines stmts = stmts.map Stmt.outline := by
  induction stmts with
  | nil => rfl
  | cons stmt rest ih => rw [outlines, ih, List.map_cons]

end Ast

end StructScript
