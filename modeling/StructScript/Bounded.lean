/-!
# Bounded computations

`Bounded σ ε α` is the type of computations that thread a state `σ` and end in a value of `α` or in
an error of `ε`. The state reached is kept in both cases, so a caller can go on from the place where
an error arose. A computation is built under a bound on its nesting; when that bound is used up it
gives `none`, which is kept apart from every error.

Main definitions:

* `Bounded`, with its `Monad` instance;
* `Bounded.exhausted`, the computation whose bound is used up;
* `Bounded.fail`, `Bounded.mapError`: raising an error and rewording one on its way out.
-/

namespace StructScript

/-- A computation over the state `σ` that gives a value or an error, each beside the state reached,
or `none` when its nesting bound is used up. -/
def Bounded (σ ε α : Type) : Type := σ → Option (Except ε α × σ)

namespace Bounded

variable {σ ε α β : Type}

/-- Run the second computation on the value and the state of the first. -/
@[always_inline, inline]
protected def bind (m : Bounded σ ε α) (f : α → Bounded σ ε β) : Bounded σ ε β := fun s =>
  match m s with
  | none => none
  | some (.ok a, s') => f a s'
  | some (.error e, s') => some (.error e, s')

@[always_inline]
instance : Monad (Bounded σ ε) where
  pure a := fun s => some (.ok a, s)
  bind := Bounded.bind

/-- The computation whose nesting bound is used up. -/
def exhausted : Bounded σ ε α := fun _ => none

/-- Stop with the error `e`, at the state reached. -/
@[inline]
def fail (e : ε) : Bounded σ ε α := fun s => some (.error e, s)

/-- The state reached so far. -/
@[inline]
def state : Bounded σ ε σ := fun s => some (.ok s, s)

/-- Replace the state by its image under `f`. -/
@[inline]
def modifyState (f : σ → σ) : Bounded σ ε Unit := fun s => some (.ok (), f s)

/-- Go on with the value of `x`, or stop with its error. -/
@[inline]
def ofExcept (x : Except ε α) : Bounded σ ε α := fun s => some (x, s)

/-- Reword the error of `m`, if it ends in one. -/
@[inline]
def mapError (f : ε → ε) (m : Bounded σ ε α) : Bounded σ ε α := fun s =>
  match m s with
  | some (.error e, s') => some (.error (f e), s')
  | r => r

/-! ### How the operations act on a state -/

/-- Giving a value leaves the state as it is. -/
@[simp] theorem pure_apply (a : α) (s : σ) : (pure a : Bounded σ ε α) s = some (.ok a, s) := rfl

/-- Failing leaves the state as it is. -/
@[simp] theorem fail_apply (e : ε) (s : σ) :
    (fail e : Bounded σ ε α) s = some (.error e, s) := rfl

/-- Without a bound left there is no end. -/
@[simp] theorem exhausted_apply (s : σ) : (exhausted : Bounded σ ε α) s = none := rfl

/-- A result that is given leaves the state as it is. -/
@[simp] theorem ofExcept_apply (x : Except ε α) (s : σ) :
    (ofExcept x : Bounded σ ε α) s = some (x, s) := rfl

/-- A sequence goes on from the value and the state of its first part, or ends as that part does. -/
theorem bind_apply (m : Bounded σ ε α) (f : α → Bounded σ ε β) (s : σ) :
    (m >>= f) s =
      match m s with
      | none => none
      | some (.ok a, s') => f a s'
      | some (.error e, s') => some (.error e, s') := rfl

/-- A sequence ends in a value exactly when both its parts do, one after the other. -/
theorem bind_eq_ok_iff {m : Bounded σ ε α} {f : α → Bounded σ ε β} {s t : σ} {b : β} :
    (m >>= f) s = some (.ok b, t) ↔
      ∃ a s', m s = some (.ok a, s') ∧ f a s' = some (.ok b, t) := by
  rw [bind_apply]
  rcases m s with _ | ⟨_ | a, s'⟩ <;> simp [and_assoc]

/-- A sequence ends in an error exactly when its first part does, or its second part after it. -/
theorem bind_eq_error_iff {m : Bounded σ ε α} {f : α → Bounded σ ε β} {s t : σ} {e : ε} :
    (m >>= f) s = some (.error e, t) ↔
      m s = some (.error e, t) ∨
        ∃ a s', m s = some (.ok a, s') ∧ f a s' = some (.error e, t) := by
  rw [bind_apply]
  rcases m s with _ | ⟨_ | a, s'⟩ <;> simp [and_assoc]

/-- A sequence uses up its bound exactly when its first part does, or its second part after it. -/
theorem bind_eq_none_iff {m : Bounded σ ε α} {f : α → Bounded σ ε β} {s : σ} :
    (m >>= f) s = none ↔ m s = none ∨ ∃ a s', m s = some (.ok a, s') ∧ f a s' = none := by
  rw [bind_apply]
  rcases m s with _ | ⟨_ | a, s'⟩ <;> simp [and_assoc]

/-- However a sequence ends, its first part has ended so in an error, or its second part after it. -/
theorem cases_of_bind {m : Bounded σ ε α} {f : α → Bounded σ ε β} {s t : σ} {r : Except ε β}
    (h : (m >>= f) s = some (r, t)) :
    (∃ e, m s = some (.error e, t) ∧ r = .error e) ∨
      ∃ a s', m s = some (.ok a, s') ∧ f a s' = some (r, t) := by
  cases r with
  | ok b => exact .inr (bind_eq_ok_iff.mp h)
  | error e =>
    rcases bind_eq_error_iff.mp h with hm | hf
    · exact .inl ⟨e, hm, rfl⟩
    · exact .inr hf

/-- Rewording errors leaves values alone. -/
@[simp] theorem mapError_eq_ok_iff {g : ε → ε} {m : Bounded σ ε α} {s t : σ} {a : α} :
    mapError g m s = some (.ok a, t) ↔ m s = some (.ok a, t) := by
  unfold mapError
  rcases m s with _ | ⟨_ | b, s'⟩ <;> simp

/-- Rewording errors does not change whether the bound is used up. -/
@[simp] theorem mapError_eq_none_iff {g : ε → ε} {m : Bounded σ ε α} {s : σ} :
    mapError g m s = none ↔ m s = none := by
  unfold mapError
  rcases m s with _ | ⟨_ | b, s'⟩ <;> simp

/-- A reworded error comes from an error of the computation. -/
theorem mapError_eq_error_iff {g : ε → ε} {m : Bounded σ ε α} {s t : σ} {e : ε} :
    mapError g m s = some (.error e, t) ↔ ∃ e', m s = some (.error e', t) ∧ g e' = e := by
  unfold mapError
  rcases m s with _ | ⟨e' | b, s'⟩
  · simp
  · constructor
    · intro h
      simp only [Option.some.injEq, Prod.mk.injEq, Except.error.injEq] at h
      exact ⟨e', by simp [h.2], h.1⟩
    · rintro ⟨e'', h, rfl⟩
      simp only [Option.some.injEq, Prod.mk.injEq, Except.error.injEq] at h
      simp [h.1, h.2]
  · simp

/-- A computation ends where it ends with its errors reworded, and in the same value. -/
theorem exists_of_mapError {g : ε → ε} {m : Bounded σ ε α} {s t : σ} {r : Except ε α}
    (h : mapError g m s = some (r, t)) :
    ∃ r', m s = some (r', t) ∧ ∀ a, r = .ok a → r' = .ok a := by
  cases r with
  | ok a => exact ⟨.ok a, mapError_eq_ok_iff.mp h, fun _ => id⟩
  | error e =>
    obtain ⟨e', he', -⟩ := mapError_eq_error_iff.mp h
    exact ⟨.error e', he', fun _ ha => nomatch ha⟩

/-- To give the value that was given changes nothing. -/
theorem bind_pure_id (m : Bounded σ ε α) : (m >>= pure) = m := by
  funext s
  rw [bind_apply]
  rcases m s with _ | ⟨_ | a, s'⟩ <;> rfl

/-- Sequences can be grouped either way. -/
theorem bind_assoc {γ : Type} (m : Bounded σ ε α) (f : α → Bounded σ ε β)
    (g : β → Bounded σ ε γ) : m >>= f >>= g = m >>= fun a => f a >>= g := by
  funext s
  simp only [bind_apply]
  rcases m s with _ | ⟨_ | a, s'⟩ <;> rfl

instance : LawfulMonad (Bounded σ ε) :=
  LawfulMonad.mk' _ bind_pure_id (fun _ _ => rfl) bind_assoc

end Bounded

end StructScript
