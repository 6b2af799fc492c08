import StructScript.Cursor

/-!
# Rules about readers

Two judgements about a reader, each with one rule for every way in which readers are put together.

* `Parse.Takes p Q`: whenever `p` gives a value, the tokens that it has taken stand in the relation
  `Q` to that value. The rules of it go from a reader to the trees it gives.
* `Parse.Becomes p ts q rest`: before the tokens `ts` and then `rest`, the reader `p` takes `ts` and
  goes on as `q`. If `q` is `pure a`, then `p` gives `a` there, which is `Parse.Reads p ts a rest`.
  The rules of it go from a tree to the reader that has to give it.
-/

namespace StructScript

/-- The cursor `d` is reached from the cursor `c` by taking the tokens `ts`. -/
structure Cursor.Took (ts : List Token) (c d : Cursor) : Prop where
  remaining : c.remaining = ts ++ d.remaining
  consumed : d.consumed = ts.reverse ++ c.consumed

namespace Cursor.Took

variable {ts us : List Token} {b c d : Cursor}

/-- Where nothing is taken, the cursor stays. -/
theorem nil (c : Cursor) : Took [] c c := ⟨rfl, rfl⟩

/-- What is taken in two steps is taken in one. -/
theorem append (h : Took ts b c) (h' : Took us c d) : Took (ts ++ us) b d where
  remaining := by rw [h.remaining, h'.remaining, List.append_assoc]
  consumed := by rw [h'.consumed, h.consumed, List.reverse_append, List.append_assoc]

end Cursor.Took

namespace Parse

variable {α β : Type}

/-! ### Steps of the basic readers -/

/-- The reader of one token takes it. -/
theorem took_of_advance {c d : Cursor} {token : Token} (h : advance c = some (.ok token, d)) :
    Cursor.Took [token] c d := by
  obtain ⟨hremaining, hconsumed⟩ := advance_eq_ok_iff.mp h
  exact ⟨hremaining, hconsumed⟩

/-- The next token is compared and stays. -/
theorem checkAny_eq_ok_iff {kinds : List TokenKind} {c d : Cursor} {b : Bool} :
    checkAny kinds c = some (.ok b, d) ↔
      d = c ∧ ∃ token, c.remaining.head? = some token ∧ kinds.contains token.kind = b := by
  unfold checkAny
  simp only [Bounded.bind_eq_ok_iff, peek_eq_ok_iff, Bounded.pure_apply, Option.some.injEq,
    Prod.mk.injEq, Except.ok.injEq]
  constructor
  · rintro ⟨token, _, ⟨rfl, hhead⟩, hb, rfl⟩
    exact ⟨rfl, token, hhead, hb⟩
  · rintro ⟨rfl, token, hhead, hb⟩
    exact ⟨token, d, ⟨rfl, hhead⟩, hb, rfl⟩

/-- The next token is taken if it is of one of the kinds. -/
theorem expectAny_eq_ok_iff {kinds : List TokenKind} {c d : Cursor} {token : Token} :
    expectAny kinds c = some (.ok token, d) ↔
      advance c = some (.ok token, d) ∧ token.kind ∈ kinds := by
  unfold expectAny
  simp only [Bounded.bind_eq_ok_iff]
  constructor
  · rintro ⟨taken, c', hadvance, h⟩
    split at h
    · rename_i hkind
      simp only [Bounded.pure_apply, Option.some.injEq, Prod.mk.injEq, Except.ok.injEq] at h
      obtain ⟨rfl, rfl⟩ := h
      exact ⟨hadvance, List.contains_iff_mem.mp hkind⟩
    · cases h
  · rintro ⟨hadvance, hkind⟩
    refine ⟨token, d, hadvance, ?_⟩
    rw [if_pos (List.contains_iff_mem.mpr hkind)]
    rfl

/-! ### What a reader takes -/

/-- Whenever `p` gives a value, the tokens taken and the value are related by `Q`. -/
def Takes (p : Parse α) (Q : List Token → α → Prop) : Prop :=
  ∀ ⦃c a d⦄, p c = some (.ok a, d) → ∃ ts, Cursor.Took ts c d ∧ Q ts a

/-- Whenever `p` gives a value, it has taken the yield of the value, which is as `P` says. -/
abbrev Sound (p : Parse α) (yield : α → List Token) (P : α → Prop) : Prop :=
  Takes p fun ts a => ts = yield a ∧ P a

namespace Takes

variable {p : Parse α} {f : α → Parse β} {Q R : List Token → α → Prop} {S : List Token → β → Prop}

/-- The relation may be weakened. -/
theorem mono (h : Takes p R) (hR : ∀ ts a, R ts a → Q ts a) : Takes p Q := by
  intro c a d hp
  obtain ⟨ts, htook, hts⟩ := h hp
  exact ⟨ts, htook, hR ts a hts⟩

/-- Giving a value takes nothing. -/
theorem pure {a : α} (h : Q [] a) : Takes (Pure.pure a) Q := by
  intro c b d hp
  simp only [Bounded.pure_apply, Option.some.injEq, Prod.mk.injEq, Except.ok.injEq] at hp
  obtain ⟨rfl, rfl⟩ := hp
  exact ⟨[], .nil c, h⟩

/-- A reader that fails gives no value. -/
theorem fail (e : ParseError) : Takes (Bounded.fail e) Q := by
  intro c a d hp
  cases hp

/-- Nor does one without a bound left. -/
theorem exhausted : Takes (Bounded.exhausted : Parse α) Q := by
  intro c a d hp
  cases hp

/-- A sequence takes what its first part takes and then what its second part takes. -/
theorem bind (hp : Takes p R)
    (hf : ∀ ts a, R ts a → Takes (f a) fun us b => S (ts ++ us) b) : Takes (p >>= f) S := by
  intro c b d h
  obtain ⟨a, c', ha, hb⟩ := Bounded.bind_eq_ok_iff.mp h
  obtain ⟨ts, htook, hts⟩ := hp ha
  obtain ⟨us, htook', hus⟩ := hf ts a hts hb
  exact ⟨ts ++ us, htook.append htook', hus⟩

/-- A function of the value. -/
theorem map {g : α → β} (hp : Takes p fun ts a => S ts (g a)) : Takes (g <$> p) S := by
  rw [map_eq_pure_bind]
  refine hp.bind fun ts a hts => Takes.pure ?_
  rwa [List.append_nil]

/-- Naming a construct changes errors only. -/
theorem within {construct : Construct} (h : Takes p Q) : Takes (Parse.within construct p) Q :=
  fun _ _ _ hp => h (Bounded.mapError_eq_ok_iff.mp hp)

/-- First a token of one of some kinds, then more. -/
theorem expectAny {kinds : List TokenKind} {f : Token → Parse β}
    (h : ∀ token, token.kind ∈ kinds → Takes (f token) fun ts b => S (token :: ts) b) :
    Takes (Parse.expectAny kinds >>= f) S := by
  refine bind (R := fun ts token => ts = [token] ∧ token.kind ∈ kinds) ?_ ?_
  · intro c token d hp
    obtain ⟨hadvance, hkind⟩ := expectAny_eq_ok_iff.mp hp
    exact ⟨[token], took_of_advance hadvance, rfl, hkind⟩
  · rintro _ token ⟨rfl, hkind⟩
    exact h token hkind

/-- First a token of one kind, then more. -/
theorem expect {kind : TokenKind} {f : Token → Parse β}
    (h : ∀ token, token.kind = kind → Takes (f token) fun ts b => S (token :: ts) b) :
    Takes (Parse.expect kind >>= f) S :=
  expectAny fun token htoken => h token (List.mem_singleton.mp htoken)

/-- What is taken after a look ahead, whatever was seen. -/
theorem peek {f : Token → Parse β} (h : ∀ token, Takes (f token) S) :
    Takes (Parse.peek >>= f) S := by
  refine bind (R := fun ts _ => ts = []) (fun _ _ _ hp => ?_) ?_
  · obtain ⟨rfl, -⟩ := peek_eq_ok_iff.mp hp
    exact ⟨[], .nil _, rfl⟩
  · rintro _ token rfl
    exact h token

/-- What is taken after a comparison, however that ended. -/
theorem checkAny {kinds : List TokenKind} {f : Bool → Parse β} (h : ∀ b, Takes (f b) S) :
    Takes (Parse.checkAny kinds >>= f) S := by
  refine bind (R := fun ts _ => ts = []) (fun _ _ _ hp => ?_) ?_
  · obtain ⟨rfl, -⟩ := checkAny_eq_ok_iff.mp hp
    exact ⟨[], .nil _, rfl⟩
  · rintro _ b rfl
    exact h b

/-- A choice by the kind of the next token. -/
theorem check {kind : TokenKind} {q r : Parse β} (hq : Takes q S) (hr : Takes r S) :
    Takes (Parse.check kind >>= fun b => if b = true then q else r) S := by
  refine checkAny fun b => ?_
  cases b with
  | false => exact hr
  | true => exact hq

end Takes

/-! ### What a reader becomes -/

/-- Before the tokens `ts` and then `rest`, the reader `p` takes `ts` and goes on as `q`. -/
def Becomes (p : Parse α) (ts : List Token) (q : Parse α) (rest : List Token) : Prop :=
  ∀ before, p ⟨before, ts ++ rest⟩ = q ⟨ts.reverse ++ before, rest⟩

/-- Before the tokens `ts` and then `rest`, the reader `p` takes `ts` and gives `a`. -/
abbrev Reads (p : Parse α) (ts : List Token) (a : α) (rest : List Token) : Prop :=
  Becomes p ts (pure a) rest

/-- Any token can be read. -/
theorem reads_advance (token : Token) (rest : List Token) : Reads advance [token] token rest :=
  fun _ => rfl

/-- A token of the right kind can be read. -/
theorem reads_expectAny {kinds : List TokenKind} {token : Token} (hkind : token.kind ∈ kinds)
    (rest : List Token) : Reads (expectAny kinds) [token] token rest := fun _ =>
  expectAny_eq_ok_iff.mpr ⟨advance_eq_ok_iff.mpr ⟨rfl, rfl⟩, hkind⟩

namespace Becomes

variable {p q r : Parse α} {f : α → Parse β} {s : Parse β} {a : α} {ts us rest : List Token}

/-- Before it has taken anything a reader is itself. -/
theorem refl (p : Parse α) (rest : List Token) : Becomes p [] p rest := fun _ => rfl

/-- A reader that becomes another one becomes what that one becomes. -/
theorem trans (h : Becomes p ts q (us ++ rest)) (h' : Becomes q us r rest) :
    Becomes p (ts ++ us) r rest := by
  intro before
  rw [List.append_assoc, h before, h' _, List.reverse_append, List.append_assoc]

/-- A sequence reads the tokens of its first part, and then goes on as its second part. -/
theorem bind (h : Reads p ts a (us ++ rest)) (h' : Becomes (f a) us s rest) :
    Becomes (p >>= f) (ts ++ us) s rest := by
  intro before
  rw [Bounded.bind_apply, List.append_assoc, h before, Bounded.pure_apply]
  change f a ⟨ts.reverse ++ before, us ++ rest⟩ = _
  rw [h' _, List.reverse_append, List.append_assoc]

/-- A sequence whose second part takes nothing. -/
theorem bind_last (h : Reads p ts a rest) (h' : Becomes (f a) [] s rest) :
    Becomes (p >>= f) ts s rest := by
  have hbind : Becomes (p >>= f) (ts ++ []) s rest := bind h h'
  rwa [List.append_nil] at hbind

/-- A function of the value that is read. -/
theorem map {g : α → β} (h : Reads p ts a rest) : Reads (g <$> p) ts (g a) rest := by
  intro before
  rw [map_eq_pure_bind, Bounded.bind_apply, h before]
  rfl

/-- Naming a construct does not matter where a value is read. -/
theorem within {construct : Construct} (h : Reads p ts a rest) :
    Reads (Parse.within construct p) ts a rest := fun before =>
  Bounded.mapError_eq_ok_iff.mpr (h before)

/-- A reader that takes any token becomes the rest of it behind that token. -/
theorem advance {f : Token → Parse β} {token : Token} (h : Becomes (f token) ts s rest) :
    Becomes (Parse.advance >>= f) (token :: ts) s rest :=
  bind (reads_advance token (ts ++ rest)) h

/-- So does one that takes a token of some kinds, before a token of one of these. -/
theorem expectAny {kinds : List TokenKind} {f : Token → Parse β} {token : Token}
    (hkind : token.kind ∈ kinds) (h : Becomes (f token) ts s rest) :
    Becomes (Parse.expectAny kinds >>= f) (token :: ts) s rest :=
  bind (reads_expectAny hkind (ts ++ rest)) h

/-- So does one that takes a token of one kind, before a token of this kind. -/
theorem expect {kind : TokenKind} {f : Token → Parse β} {token : Token} (hkind : token.kind = kind)
    (h : Becomes (f token) ts s rest) : Becomes (Parse.expect kind >>= f) (token :: ts) s rest :=
  expectAny (List.mem_singleton.mpr hkind) h

/-- A reader that looks ahead becomes the one for the token that stands there. -/
theorem peek {f : Token → Parse β} {token : Token} (hhead : (ts ++ rest).head? = some token)
    (h : Becomes (f token) ts s rest) : Becomes (Parse.peek >>= f) ts s rest := by
  have hpeek : Reads Parse.peek [] token (ts ++ rest) := fun _ =>
    peek_eq_ok_iff.mpr ⟨rfl, hhead⟩
  exact bind hpeek h

/-- A reader that compares the next token becomes the one for the answer. -/
theorem checkAny {kinds : List TokenKind} {f : Bool → Parse β} {token : Token}
    (hhead : (ts ++ rest).head? = some token)
    (h : Becomes (f (kinds.contains token.kind)) ts s rest) :
    Becomes (Parse.checkAny kinds >>= f) ts s rest := by
  have hcheck : Reads (Parse.checkAny kinds) [] (kinds.contains token.kind) (ts ++ rest) := fun _ =>
    checkAny_eq_ok_iff.mpr ⟨rfl, token, hhead, rfl⟩
  exact bind hcheck h

/-- A choice by the kind of the next token, where it is of this kind. -/
theorem check_pos {kind : TokenKind} {token : Token} {q r : Parse β}
    (hhead : (ts ++ rest).head? = some token) (hkind : token.kind = kind)
    (h : Becomes q ts s rest) :
    Becomes (Parse.check kind >>= fun b => if b = true then q else r) ts s rest := by
  refine checkAny hhead ?_
  rwa [if_pos (List.contains_iff_mem.mpr (List.mem_singleton.mpr hkind))]

/-- A choice by the kind of the next token, where it is of another kind. -/
theorem check_neg {kind : TokenKind} {token : Token} {q r : Parse β}
    (hhead : (ts ++ rest).head? = some token) (hkind : token.kind ≠ kind)
    (h : Becomes r ts s rest) :
    Becomes (Parse.check kind >>= fun b => if b = true then q else r) ts s rest := by
  refine checkAny hhead ?_
  rwa [if_neg fun hcontains => hkind (List.mem_singleton.mp (List.contains_iff_mem.mp hcontains))]

/-- A choice by whether tokens are left, where some are. -/
theorem hasMore {token : Token} {q r : Parse β} (hhead : (ts ++ rest).head? = some token)
    (h : Becomes q ts s rest) :
    Becomes (Bounded.state >>= fun cursor => if cursor.hasMore = true then q else r) ts s rest := by
  intro before
  have hmore : (⟨before, ts ++ rest⟩ : Cursor).hasMore = true := by
    cases htokens : ts ++ rest with
    | nil => rw [htokens] at hhead; cases hhead
    | cons => rfl
  rw [Bounded.bind_apply]
  simp only [Bounded.state, hmore, if_true]
  exact h before

end Becomes

end Parse

end StructScript
