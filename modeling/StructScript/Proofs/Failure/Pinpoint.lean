import StructScript.Proofs.Grammar.WellFormed
import StructScript.Proofs.Reading.Rules
import StructScript.Reading.Separated

/-!
# Where a reader fails

A third judgement about readers. `Parse.Pinpoints k p p' Q` says of the reader `p`, at every cursor
with `k` tokens at most behind it, the last of which ends the text: `p` either gives a value, which
stands in the relation `Q` to the tokens taken, or fails at the first token that goes with no value
of `Q`. Two things make up the latter.

* The tokens before the failure can be completed to those of a value (`Viable`).
* They and the token of the failure decide the matter: `p'` gives no value where they stand, whatever
  stands behind them (`Rejects`).

The reader `p'` is `p` under another bound, since a text that is longer is read under a larger bound.
For the same reason a value is given by `p'` as well, if only the next token is the same
(`GivesBefore`). A reader that has used up its bound gives nothing, which does not count against
`p'`; that `p` does not use up its own is part of the judgement, and is why it speaks of `k`.

The rules follow the ways in which readers are put together, as those of `Takes` do.
-/

namespace StructScript

/-- None of the tokens ends the text. -/
def NoEof (ts : List Token) : Prop := ∀ t ∈ ts, t.kind ≠ .eof

instance (ts : List Token) : Decidable (NoEof ts) :=
  inferInstanceAs (Decidable (∀ t ∈ ts, t.kind ≠ .eof))

namespace NoEof

variable {t : Token} {ts us : List Token}

/-- No tokens end no text. -/
theorem nil : NoEof [] := List.forall_mem_nil _

/-- A token that does not end the text may be put in front. -/
theorem cons (ht : t.kind ≠ .eof) (hts : NoEof ts) : NoEof (t :: ts) :=
  List.forall_mem_cons.mpr ⟨ht, hts⟩

/-- Tokens of which none ends the text may follow each other. -/
theorem append (hts : NoEof ts) (hus : NoEof us) : NoEof (ts ++ us) := by
  intro t ht
  rcases List.mem_append.mp ht with ht | ht
  · exact hts t ht
  · exact hus t ht

end NoEof

/-- A token that ends the text stands behind the cursor. -/
def Cursor.HasEof (c : Cursor) : Prop := ∃ t ∈ c.remaining, t.kind = .eof

/-- Where the text is still to end, a token is left. -/
theorem Cursor.HasEof.exists_cons {c : Cursor} (h : c.HasEof) :
    ∃ t rest, c.remaining = t :: rest := by
  obtain ⟨t, ht, -⟩ := h
  exact List.exists_cons_of_ne_nil (List.ne_nil_of_mem ht)

/-- What is taken without the end of the text leaves the end of the text. -/
theorem Cursor.HasEof.of_append {c : Cursor} (h : c.HasEof) {ts rest before : List Token}
    (hc : c.remaining = ts ++ rest) (hts : NoEof ts) : HasEof ⟨before, rest⟩ := by
  obtain ⟨t, ht, heof⟩ := h
  rw [hc] at ht
  rcases List.mem_append.mp ht with ht | ht
  · exact absurd heof (hts t ht)
  · exact ⟨t, ht, heof⟩

/-- So it is behind a token that does not end the text. -/
theorem Cursor.HasEof.next {c : Cursor} (h : c.HasEof) {t : Token} {rest before : List Token}
    (hc : c.remaining = t :: rest) (ht : t.kind ≠ .eof) : HasEof ⟨before, rest⟩ := by
  have htaken : c.remaining = [t] ++ rest := hc
  exact h.of_append htaken (.cons ht .nil)

namespace Parse

variable {α β : Type}

/-- The tokens begin those of a value: others complete them, and none of those ends the text. -/
def Viable (Q : List Token → α → Prop) (ts : List Token) : Prop :=
  ∃ us a, NoEof us ∧ Q (ts ++ us) a

/-- If `p` gives anything before the tokens `ts` and the token `t`, then it takes `ts` and gives
`a`. -/
def GivesBefore (p : Parse α) (ts : List Token) (a : α) (t : Token) : Prop :=
  ∀ before rest r d, p ⟨before, ts ++ t :: rest⟩ = some (r, d) →
    r = .ok a ∧ d = ⟨ts.reverse ++ before, t :: rest⟩

/-- Before the tokens `ts` and the token `t`, the reader `p` gives no value. -/
def Rejects (p : Parse α) (ts : List Token) (t : Token) : Prop :=
  ∀ before rest a d, p ⟨before, ts ++ t :: rest⟩ ≠ some (.ok a, d)

/-- At the cursor `c` the reader `p` ends in a value of `Q`, as `p'` does, or it fails at the first
token that goes with no value of `Q`, where `p'` gives none. -/
inductive PointsAt (p p' : Parse α) (Q : List Token → α → Prop) (c : Cursor) : Prop where
  | ok {ts rest : List Token} {t : Token} {a : α} (hc : c.remaining = ts ++ t :: rest)
      (hts : NoEof ts) (hp : p c = some (.ok a, ⟨ts.reverse ++ c.consumed, t :: rest⟩))
      (ha : Q ts a) (hp' : GivesBefore p' ts a t) : PointsAt p p' Q c
  | error {ts rest : List Token} {t : Token} {e : ParseError} {d : Cursor}
      (hc : c.remaining = ts ++ t :: rest) (hts : NoEof ts) (hp : p c = some (.error e, d))
      (hposition : e.position = some t.position) (hcause : e.cause ≠ .outOfTokens)
      (hviable : Viable Q ts) (hp' : Rejects p' ts t) : PointsAt p p' Q c

/-- At every cursor with `k` tokens at most behind it, up to the end of the text, the reader `p` ends
in a value of `Q`, as `p'` does, or it fails at the first token that goes with no value of `Q`. There
is such a value. -/
structure Pinpoints (k : Nat) (p p' : Parse α) (Q : List Token → α → Prop) : Prop where
  viable : Viable Q []
  pointsAt : ∀ c : Cursor, c.HasEof → c.remaining.length ≤ k → PointsAt p p' Q c

section Rules

variable {p p' : Parse α} {f f' : α → Parse β} {Q R : List Token → α → Prop}
  {S : List Token → β → Prop} {c : Cursor} {t : Token} {rest : List Token} {j k : Nat}

/-- Whatever stands behind a token that ends some tokens, they begin with the same token. -/
theorem exists_append_eq_cons {us rest' : List Token} {u : Token}
    (h : t :: rest = us ++ u :: rest') (rest'' : List Token) :
    ∃ behind, us ++ u :: rest'' = t :: behind := by
  cases us with
  | nil =>
      obtain ⟨rfl, -⟩ := List.cons.inj h
      exact ⟨rest'', rfl⟩
  | cons v us =>
      obtain ⟨rfl, -⟩ := List.cons.inj h
      exact ⟨us ++ u :: rest'', rfl⟩

/-- A sequence goes on as its second part behind what its first part takes. -/
theorem GivesBefore.of_bind {ts us rest' before rest'' : List Token} {u : Token} {a : α}
    {r : Except ParseError β} {d : Cursor} (hp : GivesBefore p ts a t)
    (hd : t :: rest = us ++ u :: rest')
    (h : (p >>= f) ⟨before, (ts ++ us) ++ u :: rest''⟩ = some (r, d)) :
    f a ⟨ts.reverse ++ before, us ++ u :: rest''⟩ = some (r, d) := by
  obtain ⟨behind, hbehind⟩ := exists_append_eq_cons hd rest''
  rw [List.append_assoc, hbehind] at h
  rw [hbehind]
  rcases Bounded.cases_of_bind h with ⟨e, he, rfl⟩ | ⟨a', d', hgive, hrest⟩
  · exact absurd (hp _ _ _ _ he).1 nofun
  · obtain ⟨heq, rfl⟩ := hp _ _ _ _ hgive
    obtain rfl := Except.ok.inj heq
    exact hrest

/-! ### Rules at one cursor -/

namespace PointsAt

/-- The relation may be weakened: tokens that can be completed to a value of it still can. -/
theorem mono (h : PointsAt p p' R c) (hQ : ∀ ts a, R ts a → Q ts a) : PointsAt p p' Q c := by
  cases h with
  | ok hc hts hp ha hp' => exact .ok hc hts hp (hQ _ _ ha) hp'
  | error hc hts hp hposition hcause hviable hp' =>
      obtain ⟨us, a, hus, ha⟩ := hviable
      exact .error hc hts hp hposition hcause ⟨us, a, hus, hQ _ _ ha⟩ hp'

/-- A reader whose bound is used up gives nothing. -/
theorem exhausted_right (h : PointsAt p p' Q c) : PointsAt p Bounded.exhausted Q c := by
  cases h with
  | ok hc hts hp ha hp' => exact .ok hc hts hp ha fun _ _ _ _ => nofun
  | error hc hts hp hposition hcause hviable hp' =>
      exact .error hc hts hp hposition hcause hviable fun _ _ _ _ => nofun

/-- Naming a construct does not move an error. -/
theorem within {construct : Construct} (h : PointsAt p p' Q c) :
    PointsAt (Parse.within construct p) (Parse.within construct p') Q c := by
  cases h with
  | ok hc hts hp ha hp' =>
      refine .ok hc hts (Bounded.mapError_eq_ok_iff.mpr hp) ha ?_
      intro before rest r d h
      obtain ⟨r', hr', -⟩ := Bounded.exists_of_mapError h
      obtain ⟨rfl, rfl⟩ := hp' before rest r' d hr'
      have hok := Bounded.mapError_eq_ok_iff (g := ParseError.within construct) |>.mpr hr'
      exact ⟨(Prod.mk.inj (Option.some.inj (h.symm.trans hok))).1, rfl⟩
  | error hc hts hp hposition hcause hviable hp' =>
      refine .error hc hts (Bounded.mapError_eq_error_iff.mpr ⟨_, hp, rfl⟩) hposition hcause
        hviable ?_
      exact fun before rest a d h => hp' before rest a d (Bounded.mapError_eq_ok_iff.mp h)

/-- The second part of a sequence goes on where the first has ended. -/
theorem bind (hp : PointsAt p p' R c)
    (hf : ∀ ts t rest a, c.remaining = ts ++ t :: rest → NoEof ts →
      p c = some (.ok a, ⟨ts.reverse ++ c.consumed, t :: rest⟩) → R ts a →
        PointsAt (f a) (f' a) (fun us b => S (ts ++ us) b) ⟨ts.reverse ++ c.consumed, t :: rest⟩)
    (hviable : ∀ ts a, R ts a → Viable S ts) : PointsAt (p >>= f) (p' >>= f') S c := by
  cases hp with
  | error hc hts hp hposition hcause hR hp' =>
      -- the first part fails: what completes it is completed by the second
      obtain ⟨us, a, hus, ha⟩ := hR
      obtain ⟨vs, b, hvs, hb⟩ := hviable _ a ha
      refine .error hc hts (Bounded.bind_eq_error_iff.mpr (.inl hp)) hposition hcause
        ⟨us ++ vs, b, hus.append hvs, by rwa [← List.append_assoc]⟩ ?_
      intro before rest b d h
      obtain ⟨a, d', ha, -⟩ := Bounded.bind_eq_ok_iff.mp h
      exact hp' before rest a d' ha
  | @ok ts rest t a hc hts hp ha hp' =>
      cases hf ts t rest a hc hts hp ha with
      | @ok us rest' u b hd hus hf hb hf' =>
          dsimp only at hd hf
          -- both parts take their tokens, one part behind the other
          have hall : c.remaining = (ts ++ us) ++ u :: rest' := by
            rw [hc, hd, List.append_assoc]
          refine .ok hall (hts.append hus) (Bounded.bind_eq_ok_iff.mpr ⟨a, _, hp, ?_⟩) hb ?_
          · rw [hf, List.reverse_append, List.append_assoc]
          · intro before rest'' r d h
            rw [List.reverse_append, List.append_assoc]
            exact hf' _ _ _ _ (hp'.of_bind hd h)
      | @error us rest' u e d hd hus hf hposition hcause hS hf' =>
          dsimp only at hd
          obtain ⟨vs, b, hvs, hb⟩ := hS
          have hall : c.remaining = (ts ++ us) ++ u :: rest' := by
            rw [hc, hd, List.append_assoc]
          refine .error hall (hts.append hus)
            (Bounded.bind_eq_error_iff.mpr (.inr ⟨a, _, hp, hf⟩)) hposition hcause
            ⟨vs, b, hvs, by rwa [List.append_assoc]⟩ ?_
          exact fun before rest'' b d h => hf' _ _ _ _ (hp'.of_bind hd h)

/-- A reader that looks at the next token is the one that it goes on as. -/
theorem peek {f f' : Token → Parse β} (hc : c.remaining = t :: rest)
    (h : PointsAt (f t) (f' t) S c) : PointsAt (Parse.peek >>= f) (Parse.peek >>= f') S c := by
  have hpeek : ∀ (g : Token → Parse β) (d : Cursor) (behind : List Token),
      d.remaining = t :: behind → (Parse.peek >>= g) d = g t d := by
    intro g d behind hd
    have hok : Parse.peek d = some (.ok t, d) := peek_eq_ok_iff.mpr ⟨rfl, by rw [hd]; rfl⟩
    rw [Bounded.bind_apply, hok]
  cases h with
  | ok hc' hts hp hb hp' =>
      refine .ok hc' hts (by rw [hpeek f c rest hc, hp]) hb ?_
      intro before rest' r d h
      obtain ⟨behind, hbehind⟩ := exists_append_eq_cons (hc.symm.trans hc') rest'
      rw [hpeek f' _ behind hbehind] at h
      exact hp' before rest' r d h
  | error hc' hts hp hposition hcause hviable hp' =>
      refine .error hc' hts (by rw [hpeek f c rest hc, hp]) hposition hcause hviable ?_
      intro before rest' b d h
      obtain ⟨behind, hbehind⟩ := exists_append_eq_cons (hc.symm.trans hc') rest'
      rw [hpeek f' _ behind hbehind] at h
      exact hp' before rest' b d h

/-- A reader that takes the next token goes on behind it. -/
theorem advance {f f' : Token → Parse β} (hc : c.remaining = t :: rest) (ht : t.kind ≠ .eof)
    (h : PointsAt (f t) (f' t) (fun us b => S (t :: us) b) ⟨t :: c.consumed, rest⟩) :
    PointsAt (Parse.advance >>= f) (Parse.advance >>= f') S c := by
  obtain ⟨before, remaining⟩ := c
  obtain rfl : remaining = t :: rest := hc
  cases h with
  | @ok ts behind u b hc' hts hp hb hp' =>
      have hall : t :: rest = (t :: ts) ++ u :: behind := congrArg (t :: ·) hc'
      refine .ok hall (hts.cons ht) ?_ hb ?_
      · rw [List.reverse_cons, List.append_assoc]
        exact hp
      · intro before' rest' r d h
        rw [List.reverse_cons, List.append_assoc]
        exact hp' (t :: before') rest' r d h
  | @error ts behind u e d hc' hts hp hposition hcause hviable hp' =>
      obtain ⟨us, b, hus, hb⟩ := hviable
      have hall : t :: rest = (t :: ts) ++ u :: behind := congrArg (t :: ·) hc'
      refine .error hall (hts.cons ht) hp hposition hcause ⟨us, b, hus, hb⟩ ?_
      exact fun before' rest' b d h => hp' (t :: before') rest' b d h

/-- A reader that fails at the next token, whatever stands behind it, fails at the first token that
goes with no value. -/
theorem fail {p p' : Parse β} {e : ParseError} {d : Cursor} (hc : c.remaining = t :: rest)
    (hp : p c = some (.error e, d)) (hposition : e.position = some t.position)
    (hcause : e.cause ≠ .outOfTokens) (hviable : Viable S [])
    (hp' : ∀ before rest b d, p' ⟨before, t :: rest⟩ ≠ some (.ok b, d)) : PointsAt p p' S c := by
  have hall : c.remaining = [] ++ t :: rest := hc
  exact .error hall .nil hp hposition hcause hviable hp'

end PointsAt

/-! ### Rules at all cursors -/

namespace Pinpoints

/-- No cursor with the end of the text behind it has no token behind it. -/
theorem zero (h : Viable Q []) : Pinpoints 0 p p' Q where
  viable := h
  pointsAt := by
    intro c hc hlength
    obtain ⟨t, rest, hcons⟩ := hc.exists_cons
    rw [hcons] at hlength
    exact absurd hlength (Nat.not_succ_le_zero _)

/-- Fewer tokens may be left, and the relation may be weakened. -/
theorem mono (h : Pinpoints k p p' R) (hjk : j ≤ k) (hQ : ∀ ts a, R ts a → Q ts a) :
    Pinpoints j p p' Q where
  viable := by
    obtain ⟨us, a, hus, ha⟩ := h.viable
    exact ⟨us, a, hus, hQ _ _ ha⟩
  pointsAt := fun c hc hlength => (h.pointsAt c hc (Nat.le_trans hlength hjk)).mono hQ

/-- Fewer tokens may be left. -/
theorem le (h : Pinpoints k p p' Q) (hjk : j ≤ k) : Pinpoints j p p' Q := h.mono hjk fun _ _ => id

/-- The bound of the second reader may be used up. -/
theorem of_succ {g : Nat → Parse α} (hg : g 0 = Bounded.exhausted)
    (h : ∀ m, Pinpoints k p (g (m + 1)) Q) (m : Nat) : Pinpoints k p (g m) Q where
  viable := (h 0).viable
  pointsAt := by
    intro c hc hlength
    cases m with
    | zero =>
        rw [hg]
        exact ((h 0).pointsAt c hc hlength).exhausted_right
    | succ m => exact (h m).pointsAt c hc hlength

/-- Giving a value takes nothing and does not fail. -/
theorem pure {a : α} (h : Q [] a) : Pinpoints k (Pure.pure a) (Pure.pure a) Q where
  viable := ⟨[], a, .nil, h⟩
  pointsAt := by
    intro c hc _
    obtain ⟨t, rest, hcons⟩ := hc.exists_cons
    have hall : c.remaining = [] ++ t :: rest := hcons
    refine .ok hall .nil ?_ h ?_
    · rw [Bounded.pure_apply, ← hcons]
      rfl
    · intro before rest' r d h
      obtain ⟨rfl, rfl⟩ := Prod.mk.inj (Option.some.inj h)
      exact ⟨rfl, rfl⟩

/-- Naming a construct does not move errors. -/
theorem within {construct : Construct} (h : Pinpoints k p p' Q) :
    Pinpoints k (Parse.within construct p) (Parse.within construct p') Q where
  viable := h.viable
  pointsAt := fun c hc hlength => (h.pointsAt c hc hlength).within

/-- A sequence at one cursor. Its second part has fewer tokens behind it, by those that the first has
taken. -/
theorem bindAt (hp : Pinpoints k p p' R) (hc : c.HasEof) (hlength : c.remaining.length ≤ k)
    (hf : ∀ ts a d, R ts a → d.HasEof → d.remaining.length ≤ k - ts.length →
      p c = some (.ok a, d) → PointsAt (f a) (f' a) (fun us b => S (ts ++ us) b) d)
    (hviable : ∀ ts a, R ts a → Viable S ts) : PointsAt (p >>= f) (p' >>= f') S c := by
  refine (hp.pointsAt c hc hlength).bind ?_ hviable
  intro ts t rest a htokens hts hpa ha
  refine hf ts a _ ha (hc.of_append htokens hts) ?_ hpa
  rw [htokens, List.length_append] at hlength
  exact Nat.le_sub_of_add_le' hlength

/-- One reader after another: what goes with no value of the second, behind one of the first, goes
with none of both. -/
theorem bind (hp : Pinpoints k p p' R)
    (hf : ∀ ts a, R ts a → Pinpoints (k - ts.length) (f a) (f' a) fun us b => S (ts ++ us) b) :
    Pinpoints k (p >>= f) (p' >>= f') S := by
  have hviable : ∀ ts a, R ts a → Viable S ts := by
    intro ts a ha
    obtain ⟨us, b, hus, hb⟩ := (hf ts a ha).viable
    exact ⟨us, b, hus, hb⟩
  refine ⟨?_, fun c hc hlength => hp.bindAt hc hlength ?_ hviable⟩
  · obtain ⟨us, a, hus, ha⟩ := hp.viable
    obtain ⟨vs, b, hvs, hb⟩ := hviable _ a ha
    exact ⟨us ++ vs, b, hus.append hvs, hb⟩
  · exact fun ts a d ha hd hlength' _ => (hf ts a ha).pointsAt d hd hlength'

/-- A sequence whose second part is not told how many tokens the first has taken. -/
theorem seq (hp : Pinpoints k p p' R)
    (hf : ∀ ts a, R ts a → Pinpoints k (f a) (f' a) fun us b => S (ts ++ us) b) :
    Pinpoints k (p >>= f) (p' >>= f') S :=
  hp.bind fun ts a ha => (hf ts a ha).le (Nat.sub_le _ _)

/-- A function of the value. -/
theorem map {g : α → β} (hp : Pinpoints k p p' fun ts a => S ts (g a)) :
    Pinpoints k (g <$> p) (g <$> p') S := by
  rw [map_eq_pure_bind, map_eq_pure_bind]
  refine hp.seq fun ts a ha => Pinpoints.pure ?_
  rwa [List.append_nil]

/-- The next token is one of those that may stand here, or the reader fails at it. -/
theorem expectAny {kinds : List TokenKind} {f f' : Token → Parse β} (hne : kinds ≠ [])
    (heof : TokenKind.eof ∉ kinds)
    (h : ∀ token, token.kind ∈ kinds →
      Pinpoints (k - 1) (f token) (f' token) fun ts b => S (token :: ts) b) :
    Pinpoints k (Parse.expectAny kinds >>= f) (Parse.expectAny kinds >>= f') S := by
  obtain ⟨kind, hkind⟩ := List.exists_mem_of_ne_nil kinds hne
  -- any token of such a kind completes what stands before it
  have hexpect : Pinpoints k (Parse.expectAny kinds) (Parse.expectAny kinds)
      fun ts token => ts = [token] ∧ token.kind ∈ kinds := by
    refine ⟨⟨[⟨kind, "", .start ""⟩], ⟨kind, "", .start ""⟩, ?_, rfl, hkind⟩, ?_⟩
    · exact NoEof.cons (fun hk => heof (hk ▸ hkind)) .nil
    · intro c hc hlength
      obtain ⟨t, rest, hcons⟩ := hc.exists_cons
      by_cases ht : t.kind ∈ kinds
      · have hne : t.kind ≠ .eof := fun hk => heof (hk ▸ ht)
        refine .advance hcons hne ?_
        rw [if_pos (List.contains_iff_mem.mpr ht)]
        refine (Pinpoints.pure (k := k) ⟨rfl, ht⟩).pointsAt _ ?_ ?_
        · exact hc.next hcons hne
        · rw [hcons] at hlength
          exact Nat.le_of_succ_le hlength
      · -- the token is taken and then turned down, whatever stands behind it
        have hnot : ¬ kinds.contains t.kind = true := fun h => ht (List.contains_iff_mem.mp h)
        have hadvance : Parse.advance c = some (.ok t, ⟨t :: c.consumed, rest⟩) :=
          advance_eq_ok_iff.mpr ⟨hcons, rfl⟩
        have hfail : Parse.expectAny kinds c =
            some (.error (.unexpected kinds t), ⟨t :: c.consumed, rest⟩) := by
          rw [Parse.expectAny, Bounded.bind_apply, hadvance]
          simp only [if_neg hnot]
          rfl
        refine .fail hcons hfail rfl nofun
          ⟨[⟨kind, "", .start ""⟩], ⟨kind, "", .start ""⟩, ?_, rfl, hkind⟩ ?_
        · exact NoEof.cons (fun hk => heof (hk ▸ hkind)) .nil
        · intro before behind b d h
          obtain ⟨hadvance', hb⟩ := expectAny_eq_ok_iff.mp h
          cases hadvance'
          exact ht hb
  refine hexpect.bind ?_
  rintro _ token ⟨rfl, htoken⟩
  exact h token htoken

/-- First a token of one kind, then more. -/
theorem expect {kind : TokenKind} {f f' : Token → Parse β} (hkind : kind ≠ .eof)
    (h : ∀ token, token.kind = kind →
      Pinpoints (k - 1) (f token) (f' token) fun ts b => S (token :: ts) b) :
    Pinpoints k (Parse.expect kind >>= f) (Parse.expect kind >>= f') S := by
  refine expectAny (List.cons_ne_nil _ _) (fun h => hkind (List.mem_singleton.mp h).symm) ?_
  exact fun token htoken => h token (List.mem_singleton.mp htoken)

/-- A reader that goes on by the next token. -/
theorem peek {f f' : Token → Parse β} (hviable : Viable S [])
    (h : ∀ t c rest, c.remaining = t :: rest → c.HasEof → c.remaining.length ≤ k →
      PointsAt (f t) (f' t) S c) :
    Pinpoints k (Parse.peek >>= f) (Parse.peek >>= f') S where
  viable := hviable
  pointsAt := by
    intro c hc hlength
    obtain ⟨t, rest, hcons⟩ := hc.exists_cons
    exact .peek hcons (h t c rest hcons hc hlength)

/-- A reader that goes on by the kind of the next token. -/
theorem checkAny {kinds : List TokenKind} {f f' : Bool → Parse β}
    (h : ∀ b, Pinpoints k (f b) (f' b) S) :
    Pinpoints k (Parse.checkAny kinds >>= f) (Parse.checkAny kinds >>= f') S := by
  have hpeek : ∀ g : Bool → Parse β, Parse.checkAny kinds >>= g =
      Parse.peek >>= fun token => g (kinds.contains token.kind) :=
    fun g => Bounded.bind_assoc _ _ _
  rw [hpeek, hpeek]
  exact peek (h true).viable fun t c rest _ hc hlength => (h _).pointsAt c hc hlength

/-- A choice by the kind of the next token. -/
theorem check {kind : TokenKind} {q q' r r' : Parse β} (hq : Pinpoints k q q' S)
    (hr : Pinpoints k r r' S) :
    Pinpoints k (Parse.check kind >>= fun b => if b = true then q else r)
      (Parse.check kind >>= fun b => if b = true then q' else r') S := by
  refine checkAny fun b => ?_
  cases b with
  | false => exact hr
  | true => exact hq

end Pinpoints

end Rules

end Parse

end StructScript
