/-!
# The order of bytes

Text is compared character by character. That is the order of the bytes that write it in UTF-8
(`lt_iff_utf8_lt`): of two characters the later one has the greater byte at the first place where
their bytes differ, whether they are written with as many bytes or not.
-/

namespace StructScript

/-- The bytes that write a text in UTF-8. -/
def utf8 (text : String) : List UInt8 := text.toUTF8.data.toList

/-- The bytes of a text are those of its characters in turn. -/
theorem utf8_eq (text : String) : utf8 text = text.toList.flatMap String.utf8EncodeChar := by
  rw [utf8, String.toUTF8_eq_toByteArray, ← String.utf8Encode_toList]
  exact List.toList_data_toByteArray

/-- Numbers that fit into a byte are told apart by it. -/
theorem uint8_ofNat_eq_iff {a b : Nat} (ha : a < UInt8.size) (hb : b < UInt8.size) :
    UInt8.ofNat a = UInt8.ofNat b ↔ a = b := by
  rw [← UInt8.toNat_inj, UInt8.toNat_ofNat', UInt8.toNat_ofNat', Nat.mod_eq_of_lt ha,
    Nat.mod_eq_of_lt hb]

/-- How many bytes write a character, and which: the bits of its number in groups of six, behind a
first byte that is greater the more bytes there are. -/
inductive Writes : Nat → List UInt8 → Prop
  | one {n : Nat} (h : n < 128) : Writes n [.ofNat n]
  | two {n : Nat} (h : 128 ≤ n) (h' : n < 2048) :
      Writes n [.ofNat (n / 64 % 32 + 192), .ofNat (n % 64 + 128)]
  | three {n : Nat} (h : 2048 ≤ n) (h' : n < 65536) :
      Writes n [.ofNat (n / 4096 % 16 + 224), .ofNat (n / 64 % 64 + 128), .ofNat (n % 64 + 128)]
  | four {n : Nat} (h : 65536 ≤ n) (h' : n < 1114112) :
      Writes n [.ofNat (n / 262144 % 8 + 240), .ofNat (n / 4096 % 64 + 128),
        .ofNat (n / 64 % 64 + 128), .ofNat (n % 64 + 128)]

/-- A character is encoded as its code point is written. -/
theorem writes_utf8EncodeChar (c : Char) : Writes c.val.toNat (String.utf8EncodeChar c) := by
  have hbound : c.val.toNat < 1114112 := by
    rcases c.valid with hc | hc
    · exact Nat.lt_trans hc (by decide)
    · exact hc.2
  unfold String.utf8EncodeChar
  dsimp only
  split
  · exact .one (by omega)
  · split
    · exact .two (by omega) (by omega)
    · split
      · exact .three (by omega) (by omega)
      · exact .four (by omega) hbound

/-- A text with a character comes behind the empty text. -/
theorem Writes.nil_lt {n : Nat} {bytes : List UInt8} (h : Writes n bytes) (xs : List UInt8) :
    [] < bytes ++ xs := by
  cases h <;> exact List.nil_lt_cons _ _

/-- The bytes of the greater number come later, whatever follows. -/
theorem Writes.append_lt {n m : Nat} {bytes bytes' : List UInt8} (hn : Writes n bytes)
    (hm : Writes m bytes') (h : n < m) (xs ys : List UInt8) : bytes ++ xs < bytes' ++ ys := by
  -- every group of bits is found from the one before it
  have htwelve (k : Nat) : k / 4096 = k / 64 / 64 := by omega
  have heighteen (k : Nat) : k / 262144 = k / 64 / 64 / 64 := by omega
  cases hn <;> cases hm <;>
    simp (disch := rw [UInt8.size]; omega) only [List.cons_append, List.nil_append,
      List.cons_lt_cons_iff, UInt8.ofNat_lt_iff_lt, uint8_ofNat_eq_iff, htwelve, heighteen] <;>
    omega

/-- The lesser of two lists of characters has the lesser bytes. -/
theorem utf8_flatMap_lt {cs ds : List Char} (h : cs < ds) :
    cs.flatMap String.utf8EncodeChar < ds.flatMap String.utf8EncodeChar := by
  induction cs generalizing ds with
  | nil =>
      cases ds with
      | nil => exact absurd h (List.not_lt_nil _)
      | cons d ds =>
          rw [List.flatMap_nil, List.flatMap_cons]
          exact (writes_utf8EncodeChar d).nil_lt _
  | cons c cs ih =>
      cases ds with
      | nil => exact absurd h (List.not_lt_nil _)
      | cons d ds =>
          rw [List.flatMap_cons, List.flatMap_cons]
          rcases List.cons_lt_cons_iff.mp h with hlt | ⟨rfl, hrest⟩
          · have hnumber : c.val.toNat < d.val.toNat :=
              UInt32.lt_iff_toNat_lt.mp (Char.lt_def.mp hlt)
            exact (writes_utf8EncodeChar c).append_lt (writes_utf8EncodeChar d) hnumber _ _
          · exact List.append_left_lt (ih hrest)

/-- The order of text is the order of its bytes. -/
theorem lt_iff_utf8_lt (a b : String) : a < b ↔ utf8 a < utf8 b := by
  have hmono {a b : String} (h : a < b) : utf8 a < utf8 b := by
    rw [utf8_eq, utf8_eq]
    exact utf8_flatMap_lt (String.lt_iff.mp h)
  refine ⟨hmono, fun h => Decidable.byContradiction fun hnot => ?_⟩
  have hle : b ≤ a := String.not_lt.mp hnot
  by_cases hba : b < a
  · exact List.lt_asymm h (hmono hba)
  · have heq : a = b := String.le_antisymm (String.not_lt.mp hba) hle
    exact List.lt_irrefl _ (heq ▸ h)

end StructScript
