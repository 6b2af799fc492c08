import StructScript.Bounded
import StructScript.Token

/-!
# Relocation

Tokens, trees and values hold positions of the source that they were read from, and functions the
number of the source text that they come from. To *relocate* one is to replace every position in it,
and every such number, by its image. What the language does depends on neither: its steps commute
with relocation. For computations this is `Bounded.Commutes`: one of them, on a relocated state,
ends like the other one relocated. The relation is closed under the operations that computations are
made of.

Main definitions:

* `Relocation`, maps of positions and of the numbers of source texts;
* `Relocatable`, the types with relocation;
* `EqUpToPlaces`, equality but for positions;
* `Bounded.Commutes`.
-/

namespace StructScript

/-- Maps of what tells one piece of code from another but does not bear on what it does. -/
structure Relocation where
  /-- The new position of what stood at a position. -/
  place : Position → Position
  /-- The new number of a source text. -/
  number : Nat → Nat

namespace Relocation

/-- All positions become one, and source texts keep their numbers. -/
def forgetPlaces : Relocation := ⟨fun _ => default, id⟩

/-- All source texts get the number zero, and everything stays in its place. -/
def forgetNumbers : Relocation := ⟨id, fun _ => 0⟩

end Relocation

/-- The types whose elements may hold positions, or numbers of source texts. -/
class Relocatable (α : Type) where
  /-- Replace every position and every number by its image. -/
  relocate : Relocation → α → α

export Relocatable (relocate)

/-- The two differ in nothing but the positions that they hold. -/
def EqUpToPlaces {α : Type} [Relocatable α] (a b : α) : Prop :=
  relocate .forgetPlaces a = relocate .forgetPlaces b

instance : Relocatable Position := ⟨fun g p => g.place p⟩

instance : Relocatable Span := ⟨fun g s => ⟨g.place s.start, g.place s.stop⟩⟩

instance : Relocatable Token := ⟨fun g t => { t with position := g.place t.position }⟩

instance : Relocatable Unit := ⟨fun _ u => u⟩

instance : Relocatable Bool := ⟨fun _ b => b⟩

instance : Relocatable String := ⟨fun _ s => s⟩

section

variable {α β ε : Type} [Relocatable α] [Relocatable β] [Relocatable ε]

instance : Relocatable (Option α) := ⟨fun g => Option.map (relocate g)⟩

instance : Relocatable (List α) := ⟨fun g => List.map (relocate g)⟩

instance : Relocatable (α × β) := ⟨fun g p => (relocate g p.1, relocate g p.2)⟩

instance : Relocatable (Except ε α) where
  relocate g
    | .ok a => .ok (relocate g a)
    | .error e => .error (relocate g e)

variable (g : Relocation)

/-- A truth value holds no position. -/
@[simp] theorem relocate_bool (b : Bool) : relocate g b = b := rfl

/-- A text holds no position. -/
@[simp] theorem relocate_string (s : String) : relocate g s = s := rfl

/-- What is absent stays absent. -/
@[simp] theorem relocate_none : relocate g (none : Option α) = none := rfl

/-- What is present is relocated. -/
@[simp] theorem relocate_some (a : α) : relocate g (some a) = some (relocate g a) := rfl

/-- Nothing is relocated in an empty list. -/
@[simp] theorem relocate_nil : relocate g ([] : List α) = [] := rfl

/-- A list is relocated item by item. -/
@[simp] theorem relocate_cons (a : α) (as : List α) :
    relocate g (a :: as) = relocate g a :: relocate g as := rfl

/-- Relocation of a list as a map over its items. -/
theorem relocate_list (as : List α) : relocate g as = as.map (relocate g) := rfl

/-- The parts of a list are relocated each on its own. -/
@[simp] theorem relocate_append (as bs : List α) :
    relocate g (as ++ bs) = relocate g as ++ relocate g bs := List.map_append

/-- A function that commutes with relocation does so on the items of a list. -/
theorem map_relocate {f : α → β} (h : ∀ a, f (relocate g a) = relocate g (f a)) (as : List α) :
    (relocate g as).map f = relocate g (as.map f) := by
  simp [relocate_list, h]

/-- Relocation keeps the number of items. -/
@[simp] theorem length_relocate (as : List α) : (relocate g as).length = as.length :=
  List.length_map _

/-- A pair is relocated in both components. -/
@[simp] theorem relocate_pair (a : α) (b : β) : relocate g (a, b) = (relocate g a, relocate g b) :=
  rfl

/-- A result is relocated where it is a value. -/
@[simp] theorem relocate_ok (a : α) :
    relocate g (.ok a : Except ε α) = .ok (relocate g a) := rfl

/-- A result is relocated where it is an error. -/
@[simp] theorem relocate_error (e : ε) :
    relocate g (.error e : Except ε α) = .error (relocate g e) := rfl

/-- A token keeps its kind in another place. -/
@[simp] theorem Token.kind_relocate (t : Token) : (relocate g t).kind = t.kind := rfl

/-- A token keeps its text in another place. -/
@[simp] theorem Token.lexeme_relocate (t : Token) : (relocate g t).lexeme = t.lexeme := rfl

/-- The span of a token moves with it. -/
@[simp] theorem Token.span_relocate (t : Token) : (relocate g t).span = relocate g t.span := rfl

/-- The span between two tokens moves with them. -/
@[simp] theorem Token.spanTo_relocate (first last : Token) :
    (relocate g first).spanTo (relocate g last) = relocate g (first.spanTo last) := rfl

/-- Spans can be joined before or after they are moved. -/
@[simp] theorem Span.join_relocate (a b : Span) :
    (relocate g a).join (relocate g b) = relocate g (a.join b) := rfl

end

namespace Bounded

variable {σ ε α β : Type} [Relocatable σ] [Relocatable ε] [Relocatable α] [Relocatable β]
  {g : Relocation}

/-- On a relocated state the second computation ends as the first does, relocated. -/
def Commutes (g : Relocation) (m m' : Bounded σ ε α) : Prop :=
  ∀ s, m' (relocate g s) = relocate g (m s)

namespace Commutes

/-- Computations that only give a value commute if the values correspond. -/
theorem pure {a a' : α} (h : a' = relocate g a) :
    Commutes g (Pure.pure a : Bounded σ ε α) (Pure.pure a') := by
  subst h
  exact fun _ => rfl

/-- Computations that only fail commute if the errors correspond. -/
theorem fail {e e' : ε} (h : e' = relocate g e) :
    Commutes g (Bounded.fail e : Bounded σ ε α) (Bounded.fail e') := by
  subst h
  exact fun _ => rfl

/-- A computation without a bound left has no end on either side. -/
theorem exhausted : Commutes g (Bounded.exhausted : Bounded σ ε α) Bounded.exhausted :=
  fun _ => rfl

/-- Reading the state gives the relocated state. -/
theorem state : Commutes g (Bounded.state : Bounded σ ε σ) Bounded.state := fun _ => rfl

/-- A change of the state commutes if its function does. -/
theorem modifyState {f f' : σ → σ} (h : ∀ s, f' (relocate g s) = relocate g (f s)) :
    Commutes g (Bounded.modifyState f : Bounded σ ε Unit) (Bounded.modifyState f') := by
  intro s
  simp [Bounded.modifyState, h]

/-- One computation after another commutes if the two do, the second from corresponding values. -/
theorem bind {m m' : Bounded σ ε α} {f f' : α → Bounded σ ε β} (hm : Commutes g m m')
    (hf : ∀ a, Commutes g (f a) (f' (relocate g a))) : Commutes g (m >>= f) (m' >>= f') := by
  intro s
  rw [bind_apply, bind_apply, hm s]
  rcases m s with _ | ⟨e | a, s'⟩
  · rfl
  · rfl
  · exact hf a s'

/-- A function of the result keeps commuting. -/
theorem map {m m' : Bounded σ ε α} {f : α → β} {f' : α → β} (hm : Commutes g m m')
    (hf : ∀ a, f' (relocate g a) = relocate g (f a)) : Commutes g (f <$> m) (f' <$> m') := by
  rw [map_eq_pure_bind, map_eq_pure_bind]
  exact bind hm fun a => pure (hf a)

/-- A function of the error keeps commuting. -/
theorem mapError {m m' : Bounded σ ε α} {f f' : ε → ε} (hm : Commutes g m m')
    (hf : ∀ e, f' (relocate g e) = relocate g (f e)) :
    Commutes g (Bounded.mapError f m) (Bounded.mapError f' m') := by
  intro s
  unfold Bounded.mapError
  rw [hm s]
  rcases m s with _ | ⟨e | a, s'⟩
  · rfl
  · simp [hf]
  · rfl

end Commutes

end Bounded

end StructScript
