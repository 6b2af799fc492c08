import StructScript.Token.Pattern

/-!
# What patterns match

`Pattern.Matches p text` says which texts belong to a pattern, without a word on how they are found.
`Pattern.longest` is measured against it: what it takes belongs to the pattern
(`Pattern.exists_of_longest`), and nothing longer that the characters begin with does
(`Pattern.exists_longest_of_matches`).

A quote is closed at one place at most, so a text that begins with a quote has one closed string at
its beginning or none (`QuotedBody.length_le`).
-/

namespace StructScript

/-- What may stand between two quotes: characters other than a quote and a backslash, and pairs of a
backslash and a character that is no newline. -/
inductive QuotedBody : List Char → Prop where
  | nil : QuotedBody []
  | plain {c : Char} {body : List Char} (hquote : c ≠ '"') (hbackslash : c ≠ '\\')
      (hbody : QuotedBody body) : QuotedBody (c :: body)
  | escaped {c : Char} {body : List Char} (hnewline : c ≠ '\n') (hbody : QuotedBody body) :
      QuotedBody ('\\' :: c :: body)

/-- Two texts between quotes that begin alike: neither goes on behind the quote that closes the
other. -/
theorem QuotedBody.length_le {body : List Char} (hbody : QuotedBody body) :
    ∀ {other rest : List Char}, QuotedBody other → other <+: body ++ '"' :: rest →
      other.length ≤ body.length := by
  induction hbody with
  | nil =>
      intro other rest hother hprefix
      cases hother with
      | nil => simp
      | plain hquote => exact absurd (List.cons_prefix_cons.mp hprefix).1 hquote
      | escaped =>
          have hhead := (List.cons_prefix_cons.mp hprefix).1
          exact absurd hhead (by decide)
  | @plain c body hquote hbackslash hbody ih =>
      intro other rest hother hprefix
      cases hother with
      | nil => simp
      | plain _ _ hother =>
          have htail := ih hother (List.cons_prefix_cons.mp hprefix).2
          simpa using htail
      | escaped => exact absurd (List.cons_prefix_cons.mp hprefix).1.symm hbackslash
  | @escaped c body hnewline hbody ih =>
      intro other rest hother hprefix
      cases hother with
      | nil => simp
      | plain _ hbackslash => exact absurd (List.cons_prefix_cons.mp hprefix).1 hbackslash
      | escaped _ hother =>
          have htail := ih hother (List.cons_prefix_cons.mp (List.cons_prefix_cons.mp hprefix).2).2
          simpa using htail

namespace Pattern

/-- The texts of a pattern. -/
inductive Matches : Pattern → List Char → Prop where
  | exact (text : List Char) : Matches (.exact text) text
  | comment {body : List Char} (hbody : '\n' ∉ body) : Matches .comment ('/' :: '/' :: body)
  | digits {ds : List Char} (hne : ds ≠ []) (hds : ∀ d ∈ ds, d.isDigit = true) : Matches .digits ds
  | decimal {whole fraction : List Char} (hwhole : Matches .digits whole)
      (hfraction : Matches .digits fraction) : Matches .decimal (whole ++ '.' :: fraction)
  | quoted {body : List Char} (hbody : QuotedBody body) : Matches .quoted ('"' :: (body ++ ['"']))
  | name {c : Char} {rest : List Char} (hc : isNameStart c = true)
      (hrest : ∀ d ∈ rest, isNameChar d = true) : Matches .name (c :: rest)

/-! ### Counting characters -/

/-- Characters that all pass are counted, and the count goes on behind them. -/
theorem countWhile_append {p : Char → Bool} {cs : List Char} (h : ∀ c ∈ cs, p c = true)
    (rest : List Char) : countWhile p (cs ++ rest) = cs.length + countWhile p rest := by
  induction cs with
  | nil => simp
  | cons c cs ih =>
      have hc : p c = true := h c List.mem_cons_self
      have hcs := ih fun d hd => h d (List.mem_cons_of_mem c hd)
      simp only [List.cons_append, countWhile, hc, if_true, hcs, List.length_cons]
      omega

/-- A first character that does not pass ends the count. -/
theorem countWhile_cons_of_neg {p : Char → Bool} {c : Char} (h : p c = false) (cs : List Char) :
    countWhile p (c :: cs) = 0 := by
  simp [countWhile, h]

/-- The characters that are counted, and those behind them. -/
theorem exists_of_countWhile (p : Char → Bool) (cs : List Char) :
    ∃ counted rest, cs = counted ++ rest ∧ counted.length = countWhile p cs ∧
      ∀ c ∈ counted, p c = true := by
  induction cs with
  | nil => exact ⟨[], [], rfl, rfl, nofun⟩
  | cons c cs ih =>
      by_cases hc : p c = true
      · obtain ⟨counted, rest, hcs, hlength, hall⟩ := ih
        refine ⟨c :: counted, rest, by rw [hcs]; rfl, ?_, List.forall_mem_cons.mpr ⟨hc, hall⟩⟩
        simp [countWhile, hc, hlength]
      · refine ⟨[], c :: cs, rfl, ?_, nofun⟩
        simp [countWhile, hc]

/-- Digits at the beginning, if there are any. -/
theorem exists_digits {cs : List Char} {n : Nat} (h : countWhile Char.isDigit cs = n + 1) :
    ∃ ds rest, cs = ds ++ rest ∧ ds.length = n + 1 ∧ Matches .digits ds := by
  obtain ⟨ds, rest, hcs, hlength, hds⟩ := exists_of_countWhile Char.isDigit cs
  rw [h] at hlength
  refine ⟨ds, rest, hcs, hlength, .digits (fun hnil => ?_) hds⟩
  simp [hnil] at hlength

/-! ### The quote that closes a string -/

/-- The quote behind a text that may stand between quotes closes it. -/
theorem closing?_append {body : List Char} (h : QuotedBody body) (rest : List Char) :
    closing? (body ++ '"' :: rest) = some (body.length + 1) := by
  induction h with
  | nil => rfl
  | @plain c body hquote hbackslash hbody ih =>
      have hstep : closing? (c :: (body ++ '"' :: rest)) =
          (closing? (body ++ '"' :: rest)).map (· + 1) := by
        rw [closing?] <;> simp_all
      rw [List.cons_append, hstep, ih]
      rfl
  | @escaped c body hnewline hbody ih =>
      have hstep : closing? ('\\' :: c :: (body ++ '"' :: rest)) =
          (closing? (body ++ '"' :: rest)).map (· + 2) := by
        simp [closing?, hnewline]
      rw [List.cons_append, List.cons_append, hstep, ih]
      rfl

/-- What stands before a closing quote may stand between quotes. -/
theorem exists_of_closing? {cs : List Char} {n : Nat} (h : closing? cs = some n) :
    ∃ body rest, cs = body ++ '"' :: rest ∧ n = body.length + 1 ∧ QuotedBody body := by
  induction cs using closing?.induct generalizing n with
  | case1 => cases h
  | case2 rest =>
      refine ⟨[], rest, rfl, ?_, .nil⟩
      simpa [closing?] using h.symm
  | case3 => cases h
  | case4 rest => simp [closing?] at h
  | case5 c rest hc ih =>
      simp only [closing?, hc, if_false, Option.map_eq_some_iff] at h
      obtain ⟨m, hm, rfl⟩ := h
      obtain ⟨body, behind, rfl, rfl, hbody⟩ := ih hm
      exact ⟨'\\' :: c :: body, behind, rfl, rfl, .escaped hc hbody⟩
  | case6 c rest hquote hlone hbackslash ih =>
      have hc : c ≠ '\\' := by
        rintro rfl
        cases rest with
        | nil => exact hlone rfl rfl
        | cons d rest => exact hbackslash d rest rfl rfl
      rw [closing?] at h
      · obtain ⟨m, hm, rfl⟩ := Option.map_eq_some_iff.mp h
        obtain ⟨body, behind, rfl, rfl, hbody⟩ := ih hm
        exact ⟨c :: body, behind, rfl, rfl, .plain hquote hc hbody⟩
      all_goals assumption

/-! ### The longest text -/

/-- What is taken belongs to the pattern. -/
theorem exists_of_longest {p : Pattern} {cs : List Char} {n : Nat} (h : p.longest cs = some n) :
    ∃ text rest, cs = text ++ rest ∧ text.length = n ∧ p.Matches text := by
  unfold longest at h
  split at h
  case h_1 text =>
    -- a fixed text
    split at h
    · rename_i hprefix
      obtain ⟨rest, rfl⟩ := List.isPrefixOf_iff_prefix.mp hprefix
      exact ⟨text, rest, rfl, Option.some.inj h, .exact text⟩
    · cases h
  case h_2 behind =>
    -- two slashes and the rest of the line
    obtain ⟨body, rest, hcs, hlength, hbody⟩ := exists_of_countWhile (· ≠ '\n') behind
    refine ⟨'/' :: '/' :: body, rest, by rw [hcs]; rfl, ?_, .comment fun hmem => ?_⟩
    · simpa [hlength] using h
    · simpa using hbody '\n' hmem
  case h_3 => cases h
  case h_4 =>
    -- digits
    split at h
    · cases h
    · rename_i m hcount
      obtain ⟨ds, rest, hcs, hlength, hds⟩ := exists_digits hcount
      exact ⟨ds, rest, hcs, hlength.trans (Option.some.inj h), hds⟩
  case h_5 =>
    -- digits, and behind them perhaps a point and more digits
    split at h
    · cases h
    · rename_i m hwhole
      obtain ⟨whole, rest, rfl, hlength, hwholeDigits⟩ := exists_digits hwhole
      split at h
      · rename_i behind hpoint
        split at h
        · cases h
        · rename_i k hfraction
          obtain ⟨fraction, rest', rfl, hlength', hdigits⟩ := exists_digits hfraction
          have hrest : rest = '.' :: (fraction ++ rest') := by
            rwa [← hlength, List.drop_left] at hpoint
          refine ⟨whole ++ '.' :: fraction, rest', by simp [hrest], ?_,
            .decimal hwholeDigits hdigits⟩
          simp only [Option.some.injEq] at h
          simp only [List.length_append, List.length_cons]
          omega
      · cases h
  case h_6 behind =>
    -- a quote, and perhaps a closing one
    obtain ⟨m, hm, rfl⟩ := Option.map_eq_some_iff.mp h
    obtain ⟨body, rest, rfl, rfl, hbody⟩ := exists_of_closing? hm
    exact ⟨'"' :: (body ++ ['"']), rest, by simp, by simp, .quoted hbody⟩
  case h_7 => cases h
  case h_8 c behind =>
    -- a character that may begin a name
    split at h
    · rename_i hc
      obtain ⟨counted, rest, hcs, hlength, hcounted⟩ := exists_of_countWhile isNameChar behind
      refine ⟨c :: counted, rest, by rw [hcs]; rfl, ?_, .name hc hcounted⟩
      simpa [hlength] using h
    · cases h
  case h_9 => cases h

/-- There are as many digits at the beginning as stand there, at least. -/
theorem exists_countWhile_of_digits {ds : List Char} (h : Matches .digits ds) (rest : List Char) :
    ∃ n, countWhile Char.isDigit (ds ++ rest) = n + 1 ∧ ds.length ≤ n + 1 := by
  cases h with
  | digits hne hds =>
      have hlength : 0 < ds.length := List.length_pos_iff.mpr hne
      have hcount := countWhile_append hds rest
      exact ⟨ds.length + countWhile Char.isDigit rest - 1, by omega, by omega⟩

/-- Of the texts of the pattern that the characters begin with, none is longer than what is
taken. -/
theorem exists_longest_of_matches {p : Pattern} {text : List Char} (h : p.Matches text)
    (rest : List Char) : ∃ n, p.longest (text ++ rest) = some n ∧ text.length ≤ n := by
  cases h with
  | exact =>
      have hprefix : text.isPrefixOf (text ++ rest) = true :=
        List.isPrefixOf_iff_prefix.mpr (List.prefix_append text rest)
      exact ⟨text.length, by simp [longest, hprefix], Nat.le_refl _⟩
  | @comment body hbody =>
      have hall : ∀ c ∈ body, decide (c ≠ '\n') = true := by
        intro c hc
        simp only [decide_eq_true_eq]
        rintro rfl
        exact hbody hc
      refine ⟨countWhile (· ≠ '\n') (body ++ rest) + 2, rfl, ?_⟩
      rw [countWhile_append hall]
      simp only [List.length_cons]
      omega
  | digits hne hds =>
      obtain ⟨n, hcount, hle⟩ := exists_countWhile_of_digits (.digits hne hds) rest
      exact ⟨n + 1, by simp only [longest, hcount], hle⟩
  | @decimal whole fraction hwhole hfraction =>
      have hwholeCount : countWhile Char.isDigit (whole ++ '.' :: (fraction ++ rest)) =
          whole.length := by
        cases hwhole with
        | digits hne hds =>
            rw [countWhile_append hds, countWhile_cons_of_neg (by decide), Nat.add_zero]
      obtain ⟨m, hm⟩ : ∃ m, whole.length = m + 1 := by
        cases hwhole with
        | digits hne _ => exact Nat.exists_eq_add_one.mpr (List.length_pos_iff.mpr hne)
      obtain ⟨n, hcount, hle⟩ := exists_countWhile_of_digits hfraction rest
      have hdrop : (whole ++ '.' :: (fraction ++ rest)).drop (m + 1) =
          '.' :: (fraction ++ rest) := by
        rw [← hm, List.drop_left]
      refine ⟨m + 1 + 1 + (n + 1), ?_, ?_⟩
      · rw [List.append_assoc, List.cons_append]
        simp only [longest, hwholeCount, hm, hdrop, hcount]
      · simp only [List.length_append, List.length_cons]
        omega
  | @quoted body hbody =>
      refine ⟨body.length + 1 + 1, ?_, by simp⟩
      rw [List.cons_append, List.append_assoc]
      simp only [longest, List.cons_append, List.nil_append, closing?_append hbody,
        Option.map_some]
  | @name c behind hc hbehind =>
      refine ⟨behind.length + countWhile isNameChar rest + 1, ?_, by simp⟩
      simp only [List.cons_append, longest, hc, if_true, countWhile_append hbehind]

end Pattern

end StructScript
