/-!
# Precedence

The binding strengths of operators. An operand is read at a strength, and takes in exactly the
operators that bind tighter.
-/

namespace StructScript

/-- How tightly an operator binds, weakest first. -/
inductive Precedence where
  | bottom | logical | comparison | sum | product | unary | call
  deriving DecidableEq, Repr, Inhabited

namespace Precedence

/-- The place of a strength in the order, weakest zero. -/
def rank : Precedence → Nat
  | bottom => 0
  | logical => 1
  | comparison => 2
  | sum => 3
  | product => 4
  | unary => 5
  | call => 6

instance : LT Precedence := ⟨fun p q => p.rank < q.rank⟩

instance : LE Precedence := ⟨fun p q => p.rank ≤ q.rank⟩

instance (p q : Precedence) : Decidable (p < q) := inferInstanceAs (Decidable (p.rank < q.rank))

instance (p q : Precedence) : Decidable (p ≤ q) := inferInstanceAs (Decidable (p.rank ≤ q.rank))

instance : Ord Precedence := ⟨fun p q => compare p.rank q.rank⟩

/-- One strength weaker; the weakest stays. An operator that groups to the right reads its right
operand one strength weaker, so that an operator of its own strength is taken in there. -/
def weaker : Precedence → Precedence
  | bottom => bottom
  | logical => bottom
  | comparison => logical
  | sum => comparison
  | product => sum
  | unary => product
  | call => unary

/-- Every strength, weakest first. -/
def all : List Precedence := [bottom, logical, comparison, sum, product, unary, call]

/-- The next weaker precedence has the rank before; the weakest one stays. -/
theorem rank_weaker (p : Precedence) : p.weaker.rank = p.rank - 1 := by cases p <;> rfl

end Precedence

end StructScript
