import Mathlib.Data.List.Nodup
import StructScript.Proofs.Store.Bindings

/-!
# Maps of lists of bindings

`NameMap.ofList` makes a map of bindings that are given one after another. What it binds a name to
is told by the last binding of that name (`NameMap.find?_ofList_cons`), and its entries are in the
order of their names whatever the order of the bindings (`NameMap.sorted_ofList`). Bindings of
different names may be given in any order (`NameMap.ofList_perm`).
-/

namespace StructScript

namespace NameMap

variable {α β : Type} {bindings bindings' : List (String × α)} {m : NameMap α} {name : String}

/-! ### What is read -/

/-- After an insertion its name has the new value, and every other name what it had. -/
theorem find?_insert (name key : String) (a : α) (m : NameMap α) :
    (insert key a m).find? name = if name = key then some a else m.find? name := by
  split
  · rename_i h
    rw [h, find?_insert_self]
  · rename_i h
    exact find?_insert_of_ne h a m

/-- Of the bindings that are added to a map the later ones count, and before those of the map. -/
theorem find?_foldl_insert (bindings : List (String × α)) (m : NameMap α) (name : String) :
    (bindings.foldl (fun m b => insert b.1 b.2 m) m).find? name =
      ((ofList bindings).find? name).or (m.find? name) := by
  induction bindings generalizing m with
  | nil => rfl
  | cons b rest ih =>
      have hcons : ofList (b :: rest) =
          rest.foldl (fun m b => insert b.1 b.2 m) (insert b.1 b.2 []) := rfl
      rw [List.foldl_cons, ih, hcons, ih, Option.or_assoc]
      congr 1
      rw [find?_insert, find?_insert]
      split <;> rfl

/-- A name is bound by the bindings that follow, or else by the first. -/
theorem find?_ofList_cons (b : String × α) (rest : List (String × α)) (name : String) :
    (ofList (b :: rest)).find? name =
      ((ofList rest).find? name).or (if name = b.1 then some b.2 else none) := by
  change (rest.foldl (fun m b => insert b.1 b.2 m) (insert b.1 b.2 [])).find? name = _
  rw [find?_foldl_insert, find?_insert, find?_nil]

/-- A name that stands in no binding is bound to nothing. -/
theorem find?_ofList_eq_none (h : ∀ b ∈ bindings, b.1 ≠ name) :
    (ofList bindings).find? name = none := by
  cases hfind : (ofList bindings).find? name with
  | none => rfl
  | some a => exact absurd rfl (h _ (mem_of_mem_ofList (mem_of_find? hfind)))

/-- The names of the map are those of the bindings. -/
theorem mem_names_ofList : name ∈ (ofList bindings).names ↔ ∃ b ∈ bindings, b.1 = name := by
  rw [mem_names_iff]
  induction bindings with
  | nil => simp [ofList]
  | cons b rest ih =>
      simp only [find?_ofList_cons, List.exists_mem_cons_iff, ← ih]
      cases (ofList rest).find? name with
      | some a => simp
      | none =>
          by_cases h : name = b.1
          · simp [h]
          · simp [h, Ne.symm h]

/-- Bindings of different names are read as they are given. -/
theorem find?_ofList_iff (hdistinct : (bindings.map (·.1)).Nodup) (name : String) (a : α) :
    (ofList bindings).find? name = some a ↔ (name, a) ∈ bindings := by
  refine ⟨fun h => mem_of_mem_ofList (mem_of_find? h), fun hmem => ?_⟩
  obtain ⟨b, hb⟩ := mem_names_iff.mp (mem_names_ofList.mpr ⟨_, hmem, rfl⟩)
  have heq := List.inj_on_of_nodup_map hdistinct (mem_of_mem_ofList (mem_of_find? hb)) hmem rfl
  cases heq
  exact hb

/-- Bindings whose names are changed are read under the changed name, if the change takes no other
of the names to it. -/
theorem find?_ofList_map {f : String → String} (h : ∀ b ∈ bindings, f b.1 = f name → b.1 = name) :
    (ofList (bindings.map (Prod.map f id))).find? (f name) = (ofList bindings).find? name := by
  induction bindings with
  | nil => rfl
  | cons b rest ih =>
      obtain ⟨hb, hrest⟩ := List.forall_mem_cons.mp h
      have hname : f name = f b.1 ↔ name = b.1 :=
        ⟨fun heq => (hb heq.symm).symm, fun heq => congrArg f heq⟩
      rw [List.map_cons, find?_ofList_cons, find?_ofList_cons, ih hrest]
      simp only [Prod.map_fst, Prod.map_snd, hname, id]

/-- The values of a map, each changed, under the same names. -/
theorem find?_map (f : α → β) (m : NameMap α) (name : String) :
    find? (m.map fun entry => (entry.1, f entry.2)) name = (m.find? name).map f := by
  induction m with
  | nil => rfl
  | cons entry rest ih =>
      rw [List.map_cons, find?_cons, find?_cons, ih]
      split <;> rfl

/-- A map of the values keeps the names. -/
theorem names_map (f : α → β) (m : NameMap α) :
    names (m.map fun entry => (entry.1, f entry.2)) = m.names := by
  simp [names, List.map_map, Function.comp_def]

/-! ### The order of the entries -/

/-- A map is sorted if its names ascend. -/
theorem sorted_iff_names : Sorted m ↔ m.names.Pairwise (· < ·) :=
  List.pairwise_map.symm

/-- The entries are in the order of their names, whatever the order of the bindings. -/
theorem sorted_ofList (bindings : List (String × α)) : Sorted (ofList bindings) := by
  have hfold (m : NameMap α) (h : Sorted m) :
      Sorted (bindings.foldl (fun m b => insert b.1 b.2 m) m) := by
    induction bindings generalizing m with
    | nil => exact h
    | cons b rest ih => exact ih _ (h.insert b.1 b.2)
  exact hfold [] .nil

/-- In a map whose entries are in order, every name reads as the value of its entry. -/
theorem Sorted.mem_iff (h : Sorted m) (name : String) (a : α) :
    (name, a) ∈ m ↔ m.find? name = some a := by
  refine ⟨fun hmem => ?_, mem_of_find?⟩
  induction m with
  | nil => cases hmem
  | cons entry rest ih =>
      obtain ⟨key, b⟩ := entry
      obtain ⟨hfirst, hrest⟩ := List.pairwise_cons.mp h
      rw [find?_cons]
      rcases List.mem_cons.mp hmem with heq | hmem
      · cases heq
        rw [if_pos rfl]
      · have hne : name ≠ key := fun heq => String.lt_irrefl key (heq ▸ hfirst _ hmem)
        rw [if_neg hne, ih hrest hmem]

/-- The first name of a map that is found comes before every other one that could be. -/
theorem Sorted.lt_of_find? (h : Sorted m) {p : String → Bool} {name other : String}
    (hfind : m.names.find? p = some name) (hmem : other ∈ m.names) (hp : p other = true)
    (hne : other ≠ name) : name < other := by
  obtain ⟨-, before, after, hnames, hbefore⟩ := List.find?_eq_some_iff_append.mp hfind
  have hsorted := sorted_iff_names.mp h
  rw [hnames] at hmem hsorted
  rcases List.mem_append.mp hmem with hmem | hmem
  · have hnot := hbefore other hmem
    rw [hp] at hnot
    cases hnot
  · have hafter := (List.mem_cons.mp hmem).resolve_left hne
    exact (List.pairwise_cons.mp (List.pairwise_append.mp hsorted).2.1).1 other hafter

/-- Bindings of different names may be given in any order. -/
theorem ofList_perm (h : bindings'.Perm bindings) (hdistinct : (bindings'.map (·.1)).Nodup) :
    ofList bindings' = ofList bindings := by
  refine h.foldl_eq' (fun b hb c hc m => ?_) []
  by_cases hname : b.1 = c.1
  · rw [List.inj_on_of_nodup_map hdistinct hb hc hname]
  · exact (insert_comm hname b.2 c.2 m).symm

end NameMap

end StructScript
