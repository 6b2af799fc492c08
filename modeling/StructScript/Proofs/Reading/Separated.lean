import StructScript.Proofs.Grammar.WellFormed
import StructScript.Proofs.Reading.Rules
import StructScript.Reading.Separated

/-!
# Readers of lists

Each of the three readers of lists takes a punctuated list, and reads every punctuated list before a
token that ends it. Reading asks for a bound that is not below the number of items.
-/

namespace StructScript.Parse

open ParseTree

variable {α : Type}

/-! ### What is taken -/

section Takes

variable {separator close : TokenKind} {item : Parse α} {yield : α → List Token} {P : α → Prop}

/-- A part that may be absent, where it is. -/
theorem takes_none : Takes (pure none) fun ts (a : Option α) =>
    ts = a.elim [] yield ∧ ∀ b ∈ a, P b :=
  Takes.pure ⟨rfl, fun _ h => absurd h (Option.not_mem_none _)⟩

/-- A part that may be absent, where it is there. -/
theorem takes_some (hitem : Sound item yield P) : Takes (some <$> item) fun ts a =>
    ts = a.elim [] yield ∧ ∀ b ∈ a, P b :=
  Takes.map (hitem.mono fun _ _ h => ⟨h.1, fun _ hb => Option.mem_some_iff.mp hb ▸ h.2⟩)

/-- What is taken for a list without a closing token is the yield of one with an item at least. -/
theorem takes_chain (hitem : Sound item yield P) : ∀ n,
    Sound (chain separator item n) (Separated.yield yield) fun items =>
      Separated.Punctuated separator false items ∧ items ≠ [] ∧ ∀ a ∈ Separated.values items, P a
  | 0 => Takes.exhausted
  | n + 1 => by
      unfold chain
      refine hitem.bind ?_
      rintro _ a ⟨rfl, ha⟩
      refine Takes.check (Takes.expect fun token htoken => ?_) (Takes.pure ?_)
      · refine (takes_chain hitem n).bind ?_
        rintro _ rest ⟨rfl, hrest, hne, hvalues⟩
        exact Takes.pure ⟨by rw [List.append_nil]; rfl, ⟨htoken, fun h => absurd h hne, hrest⟩,
          List.cons_ne_nil _ _, List.forall_mem_cons.mpr ⟨ha, hvalues⟩⟩
      · exact ⟨rfl, rfl, List.cons_ne_nil _ _, List.forall_mem_singleton.mpr ha⟩

/-- What is taken up to a closing token is the yield of a list with an item at least. -/
theorem takes_closedItems (hitem : Sound item yield P) : ∀ n,
    Sound (closedItems separator close item n) (Separated.yield yield) fun items =>
      Separated.Punctuated separator false items ∧ items ≠ [] ∧ ∀ a ∈ Separated.values items, P a
  | 0 => Takes.exhausted
  | n + 1 => by
      unfold closedItems
      refine hitem.bind ?_
      rintro _ a ⟨rfl, ha⟩
      refine Takes.check (Takes.pure ?_) (Takes.expect fun token htoken => ?_)
      · exact ⟨rfl, rfl, List.cons_ne_nil _ _, List.forall_mem_singleton.mpr ha⟩
      · refine (takes_closedItems hitem n).bind ?_
        rintro _ rest ⟨rfl, hrest, hne, hvalues⟩
        exact Takes.pure ⟨by rw [List.append_nil]; rfl, ⟨htoken, fun h => absurd h hne, hrest⟩,
          List.cons_ne_nil _ _, List.forall_mem_cons.mpr ⟨ha, hvalues⟩⟩

/-- So it is for a list that may be empty. -/
theorem takes_closedList (hitem : Sound item yield P) (n : Nat) :
    Sound (closedList separator close item n) (Separated.yield yield) fun items =>
      Separated.Punctuated separator false items ∧ ∀ a ∈ Separated.values items, P a := by
  refine Takes.check (Takes.pure ⟨rfl, trivial, List.forall_mem_nil _⟩) ?_
  exact (takes_closedItems hitem n).mono fun _ _ h => ⟨h.1, h.2.1, h.2.2.2⟩

/-- So it is for a list that may end with a separator. -/
theorem takes_openList (hitem : Sound item yield P) : ∀ n,
    Sound (openList separator close item n) (Separated.yield yield) fun items =>
      Separated.Punctuated separator true items ∧ ∀ a ∈ Separated.values items, P a
  | 0 => Takes.exhausted
  | n + 1 => by
      unfold openList
      refine Takes.check (Takes.pure ⟨rfl, trivial, List.forall_mem_nil _⟩) (hitem.bind ?_)
      rintro _ a ⟨rfl, ha⟩
      refine Takes.check (Takes.pure ?_) (Takes.expect fun token htoken => ?_)
      · exact ⟨rfl, rfl, List.forall_mem_singleton.mpr ha⟩
      · refine (takes_openList hitem n).bind ?_
        rintro _ rest ⟨rfl, hrest, hvalues⟩
        exact Takes.pure ⟨by rw [List.append_nil]; rfl, ⟨htoken, fun _ => rfl, hrest⟩,
          List.forall_mem_cons.mpr ⟨ha, hvalues⟩⟩

end Takes

/-! ### What is read -/

section Reads

variable {separator close : TokenKind} {item : Parse α} {yield : α → List Token} {t : Token}
  {rest : List Token}

/-- Each item of a list is read before a separator and before a token that ends the list. -/
def ReadsItems (separator close : TokenKind) (item : Parse α) (yield : α → List Token)
    (items : Separated α) : Prop :=
  ∀ a ∈ Separated.values items, ∀ u us, u.kind = separator ∨ u.kind = close →
    Reads item (yield a) a (u :: us)

/-- If the items of a list are read, those behind the first are. -/
theorem ReadsItems.tail {first : Item α} {items : Separated α}
    (h : ReadsItems separator close item yield (first :: items)) :
    ReadsItems separator close item yield items :=
  fun a ha => h a (List.mem_cons_of_mem _ ha)

/-- A list is read before a closing token, by induction on it. -/
theorem reads_chain (hsep : separator ≠ close) (ht : t.kind = close) :
    ∀ {items : Separated α} {n : Nat}, ReadsItems separator close item yield items →
      Separated.Punctuated separator false items → items ≠ [] → items.length ≤ n →
      Reads (chain separator item n) (Separated.yield yield items) items (t :: rest)
  | [], _, _, _, hne, _ => absurd rfl hne
  | ⟨a, none⟩ :: items, n + 1, hitem, hp, _, _ => by
      obtain rfl : items = [] := hp
      refine Becomes.bind (hitem a List.mem_cons_self t rest (.inr ht)) ?_
      exact Becomes.check_neg rfl (fun h => hsep (h.symm.trans ht)) (.refl _ _)
  | ⟨a, some s⟩ :: items, n + 1, hitem, ⟨hs, hlast, hp⟩, _, hlen => by
      refine Becomes.bind (hitem a List.mem_cons_self s _ (.inl hs)) ?_
      refine Becomes.check_pos rfl hs (Becomes.expect hs ?_)
      have hne : items ≠ [] := fun hnil => Bool.false_ne_true (hlast hnil)
      exact Becomes.bind_last
        (reads_chain hsep ht hitem.tail hp hne (Nat.le_of_succ_le_succ hlen)) (.refl _ _)

/-- So are the items of a list that is not empty. -/
theorem reads_closedItems (hsep : separator ≠ close) (ht : t.kind = close) :
    ∀ {items : Separated α} {n : Nat}, ReadsItems separator close item yield items →
      Separated.Punctuated separator false items → items ≠ [] → items.length ≤ n →
      Reads (closedItems separator close item n) (Separated.yield yield items) items (t :: rest)
  | [], _, _, _, hne, _ => absurd rfl hne
  | ⟨a, none⟩ :: items, n + 1, hitem, hp, _, _ => by
      obtain rfl : items = [] := hp
      refine Becomes.bind (hitem a List.mem_cons_self t rest (.inr ht)) ?_
      exact Becomes.check_pos rfl ht (.refl _ _)
  | ⟨a, some s⟩ :: items, n + 1, hitem, ⟨hs, hlast, hp⟩, _, hlen => by
      refine Becomes.bind (hitem a List.mem_cons_self s _ (.inl hs)) ?_
      refine Becomes.check_neg rfl (fun h => hsep (hs.symm.trans h)) (Becomes.expect hs ?_)
      have hne : items ≠ [] := fun hnil => Bool.false_ne_true (hlast hnil)
      exact Becomes.bind_last
        (reads_closedItems hsep ht hitem.tail hp hne (Nat.le_of_succ_le_succ hlen)) (.refl _ _)

/-- The first token of each item is not one that ends the list. -/
def BeginsItems (close : TokenKind) (yield : α → List Token) (items : Separated α) : Prop :=
  ∀ a ∈ Separated.values items, ∃ u us, yield a = u :: us ∧ u.kind ≠ close

/-- Each item has a token. -/
theorem BeginsItems.length_le {items : Separated α} (h : BeginsItems close yield items) :
    items.length ≤ (Separated.yield yield items).length := by
  refine Separated.length_le_length_yield _ fun a ha hnil => ?_
  obtain ⟨u, us, hu, -⟩ := h a ha
  rw [hu] at hnil
  cases hnil

/-- Before an item that begins a list, the token that ends the list does not stand. -/
theorem BeginsItems.check_neg {β : Type} {items : Separated α} {a : α} {us rest : List Token}
    {q r s : Parse β} (h : BeginsItems close yield items) (ha : a ∈ Separated.values items)
    (hr : Becomes r (yield a ++ us) s rest) :
    Becomes (check close >>= fun b => if b = true then q else r) (yield a ++ us) s rest := by
  obtain ⟨u, vs, hu, hkind⟩ := h a ha
  exact Becomes.check_neg (by rw [hu]; rfl) hkind hr

/-- A list is read before its closing token, also an empty one. -/
theorem reads_closedList (hsep : separator ≠ close) (ht : t.kind = close) {items : Separated α}
    {n : Nat} (hitem : ReadsItems separator close item yield items)
    (hbegins : BeginsItems close yield items) (hp : Separated.Punctuated separator false items)
    (hlen : items.length ≤ n) :
    Reads (closedList separator close item n) (Separated.yield yield items) items (t :: rest) := by
  cases items with
  | nil => exact Becomes.check_pos rfl ht (.refl _ _)
  | cons first items =>
      refine hbegins.check_neg List.mem_cons_self ?_
      exact reads_closedItems hsep ht hitem hp (List.cons_ne_nil _ _) hlen

/-- So is a list that may end with a separator. -/
theorem reads_openList (hsep : separator ≠ close) (ht : t.kind = close) :
    ∀ {items : Separated α} {n : Nat}, ReadsItems separator close item yield items →
      BeginsItems close yield items → Separated.Punctuated separator true items →
      items.length < n →
      Reads (openList separator close item n) (Separated.yield yield items) items (t :: rest)
  | [], _ + 1, _, _, _, _ => Becomes.check_pos rfl ht (.refl _ _)
  | ⟨a, none⟩ :: items, n + 1, hitem, hbegins, hp, _ => by
      obtain rfl : items = [] := hp
      refine hbegins.check_neg List.mem_cons_self ?_
      refine Becomes.bind (hitem a List.mem_cons_self t rest (.inr ht)) ?_
      exact Becomes.check_pos rfl ht (.refl _ _)
  | ⟨a, some s⟩ :: items, n + 1, hitem, hbegins, ⟨hs, _, hp⟩, hlen => by
      refine hbegins.check_neg List.mem_cons_self ?_
      refine Becomes.bind (hitem a List.mem_cons_self s _ (.inl hs)) ?_
      refine Becomes.check_neg rfl (fun h => hsep (hs.symm.trans h)) (Becomes.expect hs ?_)
      exact Becomes.bind_last (reads_openList hsep ht hitem.tail
        (fun a ha => hbegins a (List.mem_cons_of_mem _ ha)) hp (Nat.lt_of_succ_lt_succ hlen))
        (.refl _ _)

end Reads

end StructScript.Parse
