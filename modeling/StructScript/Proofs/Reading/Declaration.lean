import StructScript.Proofs.Reading.Separated
import StructScript.Reading.Declaration

/-!
# Readers of types, places and struct definitions

Each of them takes a construct of the grammar, and reads every such construct before a token that
does not continue it, if its bound is not below the number of tokens of the construct.
-/

namespace StructScript.Parse

open ParseTree

/-! ### What is taken -/

/-- Behind the name of a type, its arguments are taken if there are any, and with the name they make
a type. -/
theorem takes_typeArgs {type : Parse TypeRef} (htype : Sound type TypeRef.yield TypeRef.WellFormed)
    (n : Nat) {name : Token} (hname : IsTypeName name) :
    Takes (typeArgs type n name) fun ts t =>
      name :: ts = t.yield ∧ t.name = name ∧ t.WellFormed := by
  refine Takes.check (Takes.within (Takes.expect fun lbracket hlbracket => ?_))
    (Takes.pure ⟨rfl, rfl, .plain hname⟩)
  refine (takes_chain htype n).bind ?_
  rintro _ args ⟨rfl, hargs, hne, hvalues⟩
  refine Takes.expect fun rbracket hrbracket => Takes.pure ⟨?_, rfl, ?_⟩
  · rw [TypeRef.yield, TypeRef.argsYield_eq]
  · exact .applied hname hlbracket hargs hne hvalues hrbracket

/-- The kinds that a type may begin with are those of type names. -/
theorem mem_typeNameKinds_iff {name : Token} : name.kind ∈ typeNameKinds ↔ IsTypeName name := by
  simp [typeNameKinds, IsTypeName]

/-- What is taken for a type is the yield of a well-formed one. -/
theorem takes_typeRef : ∀ n, Sound (typeRef n) TypeRef.yield TypeRef.WellFormed
  | 0 => Takes.exhausted
  | n + 1 => by
      refine Takes.within (Takes.expectAny fun name hname => ?_)
      exact (takes_typeArgs (takes_typeRef n) n (mem_typeNameKinds_iff.mp hname)).mono
        fun _ _ h => ⟨h.1, h.2.2⟩

/-- Behind a place, field accesses are taken, and with the place they make a longer one. -/
theorem takes_fields : ∀ n {base : Place}, base.WellFormed →
    Takes (fields n base) fun ts p => base.yield ++ ts = p.yield ∧ p.WellFormed
  | 0, _, _ => Takes.exhausted
  | n + 1, base, hbase => by
      unfold fields
      refine Takes.check ?_ (Takes.pure ⟨List.append_nil _, hbase⟩)
      refine Takes.expect fun arrow harrow => Takes.expect fun name hname => ?_
      refine (takes_fields n (.field hbase harrow hname)).mono fun ts p hp => ⟨?_, hp.2⟩
      rw [← hp.1, Place.yield, List.append_assoc]
      rfl

/-- Behind a name, a place that begins with it is taken. -/
theorem takes_placeFrom (n : Nat) {name : Token} (hname : name.kind = .ident) :
    Takes (placeFrom n name) fun ts p => name :: ts = p.yield ∧ p.WellFormed :=
  Takes.check (Takes.within (takes_fields n (.var hname))) (Takes.pure ⟨rfl, .var hname⟩)

/-- What is taken for a place is the yield of a well-formed one. -/
theorem takes_place (n : Nat) : Sound (place n) Place.yield Place.WellFormed :=
  Takes.within (Takes.expect fun _ hname => takes_placeFrom n hname)

/-- A name is one token. -/
theorem takes_name :
    Sound (expect .ident) (fun name => [name]) fun name => name.kind = .ident := by
  intro c name d h
  obtain ⟨hadvance, hkind⟩ := expectAny_eq_ok_iff.mp h
  exact ⟨[name], took_of_advance hadvance, rfl, List.mem_singleton.mp hkind⟩

/-- What is taken for a list of names is the yield of a list of one name at least, without a
separator at the end. -/
theorem takes_nameList (n : Nat) :
    Sound (nameList n) (Separated.yield fun name => [name]) NameList := by
  refine Takes.within (Takes.peek fun first => ?_)
  split
  · exact (takes_chain takes_name n).mono fun _ _ h => ⟨h.1, h.2.1, h.2.2.1, h.2.2.2⟩
  · exact Takes.fail _

/-- What is taken for type parameters is the yield of well-formed ones. -/
theorem takes_typeParams (n : Nat) :
    Sound (typeParams n) TypeParams.yield TypeParams.WellFormed := by
  refine Takes.within (Takes.expect fun lbracket hlbracket => (takes_nameList n).bind ?_)
  rintro _ names ⟨rfl, hnames⟩
  exact Takes.expect fun rbracket hrbracket => Takes.pure ⟨rfl, hlbracket, hnames, hrbracket⟩

/-- What is taken for a field group is its names and its type; the semicolon belongs to the list of
groups. -/
theorem takes_fieldGroup (n : Nat) :
    Sound (fieldGroup n) FieldGroup.itemYield fun g => NameList g.1 ∧ g.2.WellFormed := by
  refine (takes_nameList n).bind ?_
  rintro _ names ⟨rfl, hnames⟩
  refine (takes_typeRef n).bind ?_
  rintro _ type ⟨rfl, htype⟩
  exact Takes.pure ⟨by rw [List.append_nil, FieldGroup.itemYield], hnames, htype⟩

/-- What is taken for field groups is their yield, where each group but the last has its semicolon.
-/
theorem takes_fieldGroups (n : Nat) : Takes (fieldGroups n) fun ts groups =>
    ts = groups.flatMap FieldGroup.yield ∧
      Separated.Punctuated .semicolon true (groups.map FieldGroup.toItem) ∧
        ∀ g ∈ groups, NameList g.names ∧ g.type.WellFormed := by
  refine Takes.within ((takes_openList (takes_fieldGroup n) n).bind ?_)
  rintro _ items ⟨rfl, hitems, hvalues⟩
  refine Takes.pure ⟨?_, ?_, ?_⟩
  · rw [List.append_nil, FieldGroup.flatMap_yield_eq, List.map_map]
    exact congrArg _ (List.map_id items).symm
  · rw [List.map_map]
    exact (List.map_id items).symm ▸ hitems
  · intro g hg
    obtain ⟨item, hitem, rfl⟩ := List.mem_map.mp hg
    exact hvalues _ (List.mem_map.mpr ⟨item, hitem, rfl⟩)

/-- What is taken for a struct definition is the yield of a well-formed one. -/
theorem takes_structDef (n : Nat) : Sound (structDef n) StructDef.yield StructDef.WellFormed := by
  refine Takes.within (Takes.expect fun structKw hstructKw => ?_)
  refine Takes.check ((takes_some (takes_typeParams n)).bind ?body) (takes_none.bind ?body)
  rintro _ params ⟨rfl, hparams⟩
  refine Takes.expect fun lbrace hlbrace => (takes_fieldGroups n).bind ?_
  rintro _ groups ⟨rfl, hpunctuated, hgroups⟩
  exact Takes.expect fun rbrace hrbrace => Takes.pure
    ⟨rfl, hstructKw, hparams, hlbrace, hpunctuated, hgroups, hrbrace⟩

/-! ### What is read -/

/-- The arguments of a well-formed type are read before a token that does not open others. -/
theorem reads_typeArgs {n : Nat} {type : TypeRef} {t : Token} {rest : List Token}
    (ih : ∀ {arg : TypeRef} {t : Token} {rest : List Token}, arg.WellFormed →
      arg.yield.length ≤ n → t.kind ≠ .lbracket → Reads (typeRef n) arg.yield arg (t :: rest))
    (htype : type.WellFormed) (hlen : type.yield.length ≤ n + 1) (ht : t.kind ≠ .lbracket) :
    Reads (typeArgs (typeRef n) n type.name) type.yield.tail type (t :: rest) := by
  cases htype with
  | plain hname => exact Becomes.check_neg rfl ht (.refl _ _)
  | @applied name lbracket rbracket args hname hlbracket hargs hne hvalues hrbracket =>
      simp only [TypeRef.yield, TypeRef.argsYield_eq, List.length_cons, List.length_append] at hlen
      rw [TypeRef.yield, TypeRef.argsYield_eq]
      refine Becomes.check_pos rfl hlbracket (Becomes.within (Becomes.expect hlbracket ?_))
      refine Becomes.bind (reads_chain (by decide) hrbracket ?_ hargs hne ?_)
        (Becomes.expect hrbracket (.refl _ _))
      · intro arg harg u us hu
        have harglen := Separated.length_yield_le TypeRef.yield harg
        refine ih (hvalues arg harg) (by omega) ?_
        rcases hu with hu | hu <;> rw [hu] <;> decide
      · have hargslen : args.length ≤ (Separated.yield TypeRef.yield args).length :=
          Separated.length_le_length_yield _ fun arg _ => arg.yield_ne_nil
        omega

/-- A well-formed type is read before a token that does not open arguments, by induction on a bound
for its length. -/
theorem reads_typeRef : ∀ {n : Nat} {type : TypeRef} {t : Token} {rest : List Token},
    type.WellFormed → type.yield.length ≤ n → t.kind ≠ .lbracket →
      Reads (typeRef n) type.yield type (t :: rest)
  | 0, type, _, _, _, hlen, _ => absurd (List.length_eq_zero_iff.mp (Nat.le_zero.mp hlen))
      type.yield_ne_nil
  | n + 1, type, _, _, htype, hlen, ht => by
      rw [type.yield_eq_cons]
      refine Becomes.within (Becomes.expectAny (mem_typeNameKinds_iff.mpr htype.name) ?_)
      exact reads_typeArgs reads_typeRef htype hlen ht

/-- Behind the first name of a place, the reader of field accesses gets as far as the whole place.
-/
theorem becomes_fields {p : Place} {k : Nat} {rest : List Token} (hp : p.WellFormed) :
    Becomes (fields (k + p.depth) (.var p.firstToken)) p.yield.tail (fields k p) rest := by
  induction hp generalizing k rest with
  | var => exact .refl _ _
  | @field base arrow name _ harrow hname ih =>
      have hbegin : Becomes (fields (k + 1 + base.depth) (.var base.firstToken)) base.yield.tail
          (fields (k + 1) base) ([arrow, name] ++ rest) := ih
      have hstep : Becomes (fields (k + 1) base) [arrow, name] (fields k (.field base arrow name))
          rest :=
        Becomes.check_pos rfl harrow (Becomes.expect harrow (Becomes.expect hname (.refl _ _)))
      have hall := hbegin.trans hstep
      rw [Place.yield, base.yield_eq_cons]
      rwa [Nat.add_right_comm] at hall

/-- A well-formed place whose name has been taken is read before a token that is no arrow. -/
theorem reads_placeFrom {n : Nat} {p : Place} {t : Token} {rest : List Token} (hp : p.WellFormed)
    (hn : p.depth < n) (ht : t.kind ≠ .arrow) :
    Reads (placeFrom n p.firstToken) p.yield.tail p (t :: rest) := by
  obtain ⟨k, rfl⟩ := Nat.exists_eq_add_of_lt hn
  have hfields : Reads (fields (p.depth + k + 1) (.var p.firstToken)) p.yield.tail p
      (t :: rest) := by
    have hall : Becomes (fields (k + 1 + p.depth) (.var p.firstToken)) (p.yield.tail ++ [])
        (pure p) (t :: rest) :=
      (becomes_fields hp).trans (Becomes.check_neg rfl ht (.refl _ _))
    rwa [List.append_nil, Nat.add_comm, ← Nat.add_assoc] at hall
  rcases hp.yield_tail with ⟨name, rfl⟩ | ⟨arrow, us, hus, harrow⟩
  · exact Becomes.check_neg rfl ht (.refl _ _)
  · exact Becomes.check_pos (by rw [hus]; rfl) harrow hfields.within

/-- A well-formed place is read before a token that is no arrow. -/
theorem reads_place {n : Nat} {p : Place} {t : Token} {rest : List Token} (hp : p.WellFormed)
    (hn : p.yield.length ≤ n) (ht : t.kind ≠ .arrow) : Reads (place n) p.yield p (t :: rest) := by
  rw [p.yield_eq_cons]
  refine Becomes.within (Becomes.expect hp.firstToken ?_)
  exact reads_placeFrom hp (Nat.lt_of_lt_of_le p.depth_lt_length_yield hn) ht

/-- A list of names is read before a token that is no comma. -/
theorem reads_nameList {n : Nat} {names : Separated Token} {t : Token} {rest : List Token}
    (hnames : NameList names) (hn : names.length ≤ n) (ht : t.kind ≠ .comma) :
    Reads (nameList n) (Separated.yield (fun name => [name]) names) names (t :: rest) := by
  cases names with
  | nil => exact absurd rfl hnames.nonempty
  | cons first names =>
      refine Becomes.within (Becomes.peek rfl ?_)
      rw [if_pos (hnames.isIdent first.value List.mem_cons_self)]
      refine reads_chain ht.symm rfl (fun name hname _ us _ => ?_) hnames.punctuated
        hnames.nonempty hn
      exact reads_expectAny (List.mem_singleton.mpr (hnames.isIdent name hname)) _

/-- Well-formed type parameters are read, whatever follows their bracket. -/
theorem reads_typeParams {n : Nat} {p : TypeParams} {rest : List Token} (hp : p.WellFormed)
    (hn : p.yield.length ≤ n) : Reads (typeParams n) p.yield p rest := by
  have hlen : p.names.length ≤ (Separated.yield (fun name => [name]) p.names).length :=
    Separated.length_le_length_yield _ fun _ _ => List.cons_ne_nil _ _
  simp only [TypeParams.yield, List.length_cons, List.length_append] at hn
  refine Becomes.within (Becomes.expect hp.lbracket ?_)
  refine Becomes.bind (reads_nameList hp.names (by omega) ?_)
    (Becomes.expect hp.rbracket (.refl _ _))
  rw [hp.rbracket]
  decide

/-- A field group is read before a token that does not open type arguments. -/
theorem reads_fieldGroup {n : Nat} {g : Separated Token × TypeRef} {t : Token} {rest : List Token}
    (hnames : NameList g.1) (htype : g.2.WellFormed)
    (hn : (FieldGroup.itemYield g).length ≤ n) (ht : t.kind ≠ .lbracket) :
    Reads (fieldGroup n) (FieldGroup.itemYield g) g (t :: rest) := by
  have hlen : g.1.length ≤ (Separated.yield (fun name => [name]) g.1).length :=
    Separated.length_le_length_yield _ fun _ _ => List.cons_ne_nil _ _
  rw [FieldGroup.itemYield, List.length_append] at hn
  have hread : Reads (nameList n) (Separated.yield (fun name => [name]) g.1) g.1
      (g.2.yield ++ t :: rest) := by
    rw [g.2.yield_eq_cons]
    refine reads_nameList hnames (by omega) ?_
    rcases htype.name with hname | hname <;> rw [hname] <;> decide
  exact Becomes.bind hread (Becomes.bind_last (reads_typeRef htype (by omega) ht) (.refl _ _))

/-- Field groups are read before the brace that closes the definition. -/
theorem reads_fieldGroups {n : Nat} {groups : List FieldGroup} {t : Token} {rest : List Token}
    (hpunctuated : Separated.Punctuated .semicolon true (groups.map FieldGroup.toItem))
    (hgroups : ∀ g ∈ groups, NameList g.names ∧ g.type.WellFormed)
    (hn : (groups.flatMap FieldGroup.yield).length < n) (ht : t.kind = .rbrace) :
    Reads (fieldGroups n) (groups.flatMap FieldGroup.yield) groups (t :: rest) := by
  have hvalues : ∀ g ∈ Separated.values (groups.map FieldGroup.toItem),
      NameList g.1 ∧ g.2.WellFormed := by
    intro g hg
    simp only [Separated.values, List.map_map, List.mem_map] at hg
    obtain ⟨group, hgroup, rfl⟩ := hg
    exact hgroups group hgroup
  have hbegins : BeginsItems .rbrace FieldGroup.itemYield (groups.map FieldGroup.toItem) := by
    intro g hg
    have hnames := (hvalues g hg).1
    obtain ⟨names, type⟩ := g
    cases names with
    | nil => exact absurd rfl hnames.nonempty
    | cons first names =>
        refine ⟨first.value, _, rfl, ?_⟩
        rw [hnames.isIdent first.value List.mem_cons_self]
        decide
  rw [FieldGroup.flatMap_yield_eq] at hn ⊢
  refine Becomes.within (Becomes.bind_last (reads_openList (by decide) ht ?_ hbegins hpunctuated
    (Nat.lt_of_le_of_lt hbegins.length_le hn)) ?_)
  · intro g hg u us hu
    have hglen := Separated.length_yield_le FieldGroup.itemYield hg
    refine reads_fieldGroup (hvalues g hg).1 (hvalues g hg).2 (by omega) ?_
    rcases hu with hu | hu <;> rw [hu] <;> decide
  · rw [List.map_map]
    have hid : groups.map (fun g => (⟨g.names, g.type, g.semicolon⟩ : FieldGroup)) = groups :=
      List.map_id groups
    exact (congrArg (fun gs => (pure gs : Parse (List FieldGroup))) hid) ▸ .refl _ _

/-- A well-formed struct definition is read, whatever follows its brace. -/
theorem reads_structDef {n : Nat} {d : StructDef} {rest : List Token} (hd : d.WellFormed)
    (hn : d.yield.length ≤ n) : Reads (structDef n) d.yield d rest := by
  simp only [StructDef.yield, List.length_cons, List.length_append] at hn
  have body : Reads (do
      let lbrace ← expect .lbrace
      let groups ← fieldGroups n
      let rbrace ← expect .rbrace
      return (⟨d.structKw, d.params, lbrace, groups, rbrace⟩ : StructDef))
      (d.lbrace :: (d.groups.flatMap FieldGroup.yield ++ [d.rbrace])) d rest := by
    refine Becomes.expect hd.lbrace (Becomes.bind ?_ (Becomes.expect hd.rbrace (.refl _ _)))
    exact reads_fieldGroups hd.punctuated hd.groups (by omega) hd.rbrace
  refine Becomes.within (Becomes.expect hd.structKw ?_)
  obtain ⟨structKw, params, lbrace, groups, rbrace⟩ := d
  cases params with
  | none =>
      refine Becomes.check_neg rfl ?_ body
      rw [hd.lbrace]
      decide
  | some p =>
      have hp : p.WellFormed := hd.params p rfl
      refine Becomes.check_pos rfl hp.lbracket (Becomes.bind (Becomes.map ?_) body)
      exact reads_typeParams hp (by simp only [Option.elim_some] at hn; omega)

end StructScript.Parse
