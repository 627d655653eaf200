import Mathlib.Data.String.Basic

/-!
# The order of texts is that of their bytes

Texts are compared character by character. Encoded, the greater of two
characters has the greater byte where the two first differ, since a character
that takes more bytes starts with a greater one; so it makes no difference
whether characters are compared or bytes.
-/

namespace DaggerWorkflows

/-- The bytes that a text is encoded as. -/
def Text.bytes (s : String) :
    List UInt8 := s.toList.flatMap String.utf8EncodeChar

theorem utf8EncodeChar_lt {c d : Char} (h : c < d) (xs ys : List UInt8) :
    String.utf8EncodeChar c ++ xs < String.utf8EncodeChar d ++ ys := by
  have hlt : c.val.toNat < d.val.toNat := h
  have hd : d.val.toNat < 0x110000 := by
    have hvalid := d.valid
    simp only [UInt32.isValidChar, Nat.isValidChar] at hvalid
    omega
  unfold String.utf8EncodeChar
  generalize c.val.toNat = v at hlt
  generalize d.val.toNat = w at hlt hd
  -- each byte takes off six bits
  have hdiv : ∀ n : Nat, n / 4096 = n / 64 / 64 ∧
      n / 262144 = n / 64 / 64 / 64 := fun n => by
    rw [Nat.div_div_eq_div_mul, Nat.div_div_eq_div_mul]
    exact ⟨rfl, rfl⟩
  simp only [hdiv]
  split_ifs <;>
    simp only [List.cons_append, List.nil_append, List.cons_lt_cons_iff,
      UInt8.lt_iff_toNat_lt, ← UInt8.toNat_inj, UInt8.toNat_ofNat'] <;>
    omega

theorem flatMap_utf8EncodeChar_lt {cs ds : List Char} (h : cs < ds) :
    cs.flatMap String.utf8EncodeChar < ds.flatMap String.utf8EncodeChar := by
  induction h with
  | @nil d ds =>
      rw [List.flatMap_nil, List.flatMap_cons]
      cases hbytes : String.utf8EncodeChar d with
      | nil => exact absurd hbytes String.utf8EncodeChar_ne_nil
      | cons => exact .nil
  | rel hlt =>
      rw [List.flatMap_cons, List.flatMap_cons]
      exact utf8EncodeChar_lt hlt _ _
  | cons _ ih =>
      rw [List.flatMap_cons, List.flatMap_cons]
      exact List.append_left_lt ih

theorem Text.bytes_le {s t : String} (h : s ≤ t) : bytes s ≤ bytes t := by
  rcases h.lt_or_eq with hlt | rfl
  · exact List.le_of_lt (flatMap_utf8EncodeChar_lt hlt)
  · exact List.le_refl _

end DaggerWorkflows
