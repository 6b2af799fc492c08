/-!
# Maps from names

`NameMap α` is a finite map from names to `α`, kept as a list of entries in increasing order of
their names. Names are compared character by character, which for Unicode text is also the order of
their bytes. A map has one entry a name, so two maps with the same bindings are equal.

Main definitions:

* `NameMap.find?` and `NameMap.insert`;
* `NameMap.Sorted`, the order that `insert` keeps (`NameMap.Sorted.insert`).
-/

namespace StructScript

/-- A finite map from names to `α`: its entries in increasing order of their names. -/
abbrev NameMap (α : Type) : Type := List (String × α)

namespace NameMap

variable {α : Type}

/-- The value bound to `name`, if there is one. -/
def find? : NameMap α → String → Option α
  | [], _ => none
  | (key, a) :: rest, name => if name = key then some a else find? rest name

/-- Whether `name` is bound. -/
def contains (m : NameMap α) (name : String) : Bool := (m.find? name).isSome

/-- Bind `name` to `a`, replacing what it was bound to. -/
def insert (name : String) (a : α) : NameMap α → NameMap α
  | [] => [(name, a)]
  | (key, b) :: rest =>
    if name < key then (name, a) :: (key, b) :: rest
    else if name = key then (name, a) :: rest
    else (key, b) :: insert name a rest

/-- The map of a list of bindings. Of two bindings of one name the later counts. -/
def ofList (bindings : List (String × α)) : NameMap α :=
  bindings.foldl (fun m b => insert b.1 b.2 m) []

/-- The bound names, in increasing order. -/
def names (m : NameMap α) : List String := m.map (·.1)

/-- Every name comes before those that follow it. -/
def Sorted (m : NameMap α) : Prop := m.Pairwise (fun a b => a.1 < b.1)

/-- The empty map binds no name. -/
@[simp] theorem find?_nil (name : String) : find? ([] : NameMap α) name = none := rfl

/-- The first entry of a name decides. -/
theorem find?_cons (key name : String) (a : α) (m : NameMap α) :
    find? ((key, a) :: m) name = if name = key then some a else find? m name := rfl

/-- After binding a name, that name reads as the new value. -/
@[simp] theorem find?_insert_self (name : String) (a : α) (m : NameMap α) :
    find? (insert name a m) name = some a := by
  induction m with
  | nil => simp [insert, find?_cons]
  | cons entry rest ih =>
    obtain ⟨key, b⟩ := entry
    unfold insert
    split
    · simp [find?_cons]
    · split
      · simp [find?_cons]
      · simp_all [find?_cons]

/-- Binding a name leaves what every other name reads. -/
theorem find?_insert_of_ne {name other : String} (h : other ≠ name) (a : α) (m : NameMap α) :
    find? (insert name a m) other = find? m other := by
  induction m with
  | nil => simp [insert, find?_cons, h]
  | cons entry rest ih =>
    obtain ⟨key, b⟩ := entry
    unfold insert
    split
    · simp [find?_cons, h]
    · split
      · rename_i h'
        simp [find?_cons, ← h', h]
      · simp [find?_cons, ih]

/-- Binding a name adds it to the names of the map. -/
theorem mem_insert {entry : String × α} {name : String} {a : α} {m : NameMap α}
    (h : entry ∈ insert name a m) : entry = (name, a) ∨ entry ∈ m := by
  induction m with
  | nil => simpa [insert] using h
  | cons head rest ih =>
    obtain ⟨key, b⟩ := head
    unfold insert at h
    split at h
    · simpa using h
    · split at h
      · rcases List.mem_cons.1 h with h | h
        · exact .inl h
        · exact .inr (List.mem_cons_of_mem _ h)
      · rcases List.mem_cons.1 h with h | h
        · exact .inr (h ▸ List.mem_cons_self)
        · rcases ih h with h | h
          · exact .inl h
          · exact .inr (List.mem_cons_of_mem _ h)

/-- Binding a name keeps the order of the entries. -/
theorem Sorted.insert {m : NameMap α} (h : Sorted m) (name : String) (a : α) :
    Sorted (NameMap.insert name a m) := by
  induction m with
  | nil => simp [NameMap.insert, Sorted]
  | cons head rest ih =>
    obtain ⟨key, b⟩ := head
    obtain ⟨hhead, hrest⟩ := List.pairwise_cons.1 h
    unfold NameMap.insert
    split
    · rename_i hlt
      refine List.pairwise_cons.2 ⟨fun entry hentry => ?_, h⟩
      rcases List.mem_cons.1 hentry with rfl | hentry
      · exact hlt
      · exact String.lt_trans hlt (hhead entry hentry)
    · rename_i hlt
      split
      · rename_i heq
        exact List.pairwise_cons.2 ⟨fun entry hentry => heq ▸ hhead entry hentry, hrest⟩
      · rename_i hne
        refine List.pairwise_cons.2 ⟨fun entry hentry => ?_, ih hrest⟩
        rcases mem_insert hentry with rfl | hentry
        · have hle : key ≤ name := String.not_lt.1 hlt
          exact Decidable.byContradiction fun h => hne (String.le_antisymm (String.not_lt.1 h) hle)
        · exact hhead entry hentry

end NameMap

end StructScript
