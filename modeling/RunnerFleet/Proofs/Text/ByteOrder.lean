/-!
# The order of texts is that of their bytes

Texts are compared character by character.  In UTF-8 a smaller character has the smaller bytes, and
no character's bytes begin those of another one, so that a comparison of the bytes gives the same.

Main results:

- `encode_append_lt`: the bytes of a smaller character come first, whatever follows.
- `lt_iff_bytes_lt`: one text comes before another one exactly if its bytes do.
-/

namespace RunnerFleet
namespace Text

/-- The bytes of a text. -/
def bytes (s : String) : List UInt8 :=
  s.toUTF8.data.toList

theorem bytes_eq (s : String) : bytes s = s.toList.flatMap String.utf8EncodeChar := by
  rw [bytes, String.toUTF8, ← String.utf8Encode_toList, List.utf8Encode,
    List.toList_data_toByteArray]

/-- Characters are numbered below this limit. -/
theorem toNat_lt (c : Char) : c.val.toNat < 0x110000 := by
  rcases c.valid with h | ⟨-, h⟩
  · exact Nat.lt_trans h (by decide)
  · exact h

/-- The bytes of a smaller character come first, whatever follows. -/
theorem encode_append_lt {c d : Char} (h : c < d) (u v : List UInt8) :
    String.utf8EncodeChar c ++ u < String.utf8EncodeChar d ++ v := by
  have hlt : c.val.toNat < d.val.toNat := h
  have hbound := toNat_lt d
  -- every byte after the first one is a digit to the base 64
  have hsquare : ∀ n, n / 4096 = n / 64 / 64 := fun n => (Nat.div_div_eq_div_mul n 64 64).symm
  have hcube : ∀ n, n / 262144 = n / 64 / 64 / 64 := fun n => by
    rw [Nat.div_div_eq_div_mul, Nat.div_div_eq_div_mul]
  simp only [String.utf8EncodeChar, hsquare, hcube]
  generalize c.val.toNat = m at hlt ⊢
  generalize d.val.toNat = n at hlt hbound ⊢
  repeat' split
  all_goals
    simp only [List.cons_append, List.nil_append, List.cons_lt_cons_iff, UInt8.lt_iff_toNat_lt,
      ← UInt8.toNat_inj, UInt8.toNat_ofNat']
    omega

/-- What two lists of bytes begin with alike does not matter. -/
theorem append_lt_append_iff (u v w : List UInt8) : u ++ v < u ++ w ↔ v < w := by
  induction u with
  | nil => rfl
  | cons a u ih => simp [ih]

/-- A comparison of the bytes of characters compares the characters. -/
theorem flatMap_encode_lt_iff (cs ds : List Char) :
    cs.flatMap String.utf8EncodeChar < ds.flatMap String.utf8EncodeChar ↔ cs < ds := by
  induction cs generalizing ds with
  | nil =>
      cases ds with
      | nil => simp
      | cons d ds =>
          obtain ⟨b, bs, hd⟩ := List.exists_cons_of_ne_nil (String.utf8EncodeChar_ne_nil (c := d))
          simp [hd]
  | cons c cs ih =>
      cases ds with
      | nil => simp
      | cons d ds =>
          rw [List.flatMap_cons, List.flatMap_cons, List.cons_lt_cons_iff]
          rcases Std.lt_trichotomy c d with hlt | rfl | hgt
          · exact iff_of_true (encode_append_lt hlt _ _) (Or.inl hlt)
          · simp [append_lt_append_iff, ih]
          · refine iff_of_false (List.lt_asymm (encode_append_lt hgt _ _)) ?_
            rintro (hlt | ⟨rfl, -⟩)
            · exact Char.lt_asymm hlt hgt
            · exact Char.lt_irrefl _ hgt

/-- One text comes before another one exactly if its bytes do. -/
theorem lt_iff_bytes_lt (s t : String) : s < t ↔ bytes s < bytes t := by
  rw [bytes_eq, bytes_eq, flatMap_encode_lt_iff]
  rfl

end Text
end RunnerFleet
