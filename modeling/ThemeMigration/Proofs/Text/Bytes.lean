import Mathlib.Data.Char
import Mathlib.Tactic.SplitIfs
import ThemeMigration.Text.Slice

/-!
# The order of bytes

Texts are ordered by the code points of their characters, which is the order of their UTF-8 bytes:
the bytes of a greater character are greater where the two first differ, and no character's bytes
begin those of another one.
-/

namespace ThemeMigration.Text

/-- The UTF-8 bytes of a text. -/
def bytes (s : String) : List UInt8 := s.toUTF8.data.toList

theorem bytes_eq (s : String) : bytes s = s.toList.flatMap String.utf8EncodeChar := by
  rw [bytes, String.toUTF8_eq_toByteArray, ← String.utf8Encode_toList, List.utf8Encode]
  simp

/-- The first difference between the bytes of two characters decides like the characters. -/
theorem encode_lt_encode {c d : Char} (less : c < d) (xs ys : List UInt8) :
    String.utf8EncodeChar c ++ xs < String.utf8EncodeChar d ++ ys := by
  have values : c.val.toNat < d.val.toNat := less
  have largest : d.val.toNat < 0x110000 := by
    have valid := d.valid
    simp only [UInt32.isValidChar, Nat.isValidChar] at valid
    omega
  -- Cutting off six bits is a division by 64, and a marked byte is one.
  have shift (n : Nat) (le : n ≤ d.val.toNat) :
      n / 64 / 64 = n / 4096 ∧ n / 4096 / 64 = n / 262144 ∧ n / 262144 / 8 = 0 :=
    ⟨Nat.div_div_eq_div_mul n 64 64, Nat.div_div_eq_div_mul n 4096 64, by omega⟩
  have marked {m : Nat} (base : Nat) (some : 0 < m) (fits : base + m ≤ 256) (n : Nat) :
      (n % m + base) % 2 ^ 8 = n % m + base :=
    Nat.mod_eq_of_lt (by have := Nat.mod_lt n some; omega)
  have lower := shift c.val.toNat (Nat.le_of_lt values)
  have upper := shift d.val.toNat (Nat.le_refl _)
  simp only [String.utf8EncodeChar]
  split_ifs <;>
    simp only [List.cons_append, List.nil_append, List.cons_lt_cons_iff, UInt8.lt_iff_toNat_lt,
      ← UInt8.toNat_inj, UInt8.toNat_ofNat',
      marked 0x80 (by decide : 0 < 0x40) (by decide),
      marked 0xc0 (by decide : 0 < 0x20) (by decide),
      marked 0xe0 (by decide : 0 < 0x10) (by decide),
      marked 0xf0 (by decide : 0 < 0x08) (by decide)] <;>
    omega

/-- Lists of characters are ordered like their bytes. -/
theorem flatMap_encode_lt_iff (cs ds : List Char) :
    cs.flatMap String.utf8EncodeChar < ds.flatMap String.utf8EncodeChar ↔ cs < ds := by
  induction cs generalizing ds with
  | nil =>
    cases ds with
    | nil => simp
    | cons d ds =>
      have some := @String.utf8EncodeChar_ne_nil d
      cases bytes : String.utf8EncodeChar d with
      | nil => exact absurd bytes some
      | cons b bs => simp [bytes]
  | cons c cs ih =>
    cases ds with
    | nil => simp
    | cons d ds =>
      rw [List.flatMap_cons, List.flatMap_cons, List.cons_lt_cons_iff]
      rcases lt_trichotomy c d with less | same | greater
      · exact iff_of_true (encode_lt_encode less _ _) (Or.inl less)
      · subst same
        have skip : ∀ bs : List UInt8, bs ++ cs.flatMap String.utf8EncodeChar <
            bs ++ ds.flatMap String.utf8EncodeChar ↔ cs < ds := by
          intro bs
          induction bs with
          | nil => exact ih ds
          | cons b bs inner => simpa [List.cons_lt_cons_iff] using inner
        rw [skip]
        simp
      · have back := encode_lt_encode greater (ds.flatMap String.utf8EncodeChar)
          (cs.flatMap String.utf8EncodeChar)
        refine iff_of_false (List.lt_asymm back) ?_
        rintro (less | ⟨same, _⟩)
        · exact lt_asymm greater less
        · exact absurd same (ne_of_gt greater)

theorem bytes_lt_iff {a b : String} : bytes a < bytes b ↔ a < b := by
  rw [bytes_eq, bytes_eq, flatMap_encode_lt_iff, String.lt_iff]

end ThemeMigration.Text
