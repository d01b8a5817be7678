import Mathlib.Data.String.Basic

/-!
# The order of the bytes of texts

Texts come in the same order whether they are compared by their characters or by the bytes of their
UTF-8 form (`Text.bytes_lt_iff`). The bytes of a character with a greater number are greater,
whatever follows: the first byte rises with the number of bytes, and among characters with as many
bytes the first byte that differs decides (`Text.utf8EncodeChar_append_lt`).
-/

namespace ApiModels.Text

/-- The bytes of a text. -/
def bytes (s : String) : List UInt8 := s.toByteArray.data.toList

theorem bytes_eq_flatMap (s : String) : bytes s = s.toList.flatMap String.utf8EncodeChar := by
  obtain ⟨cs, rfl⟩ : ∃ cs, s = String.ofList cs := ⟨s.toList, String.ofList_toList.symm⟩
  rw [bytes, String.toByteArray_ofList, List.utf8Encode, List.data_toByteArray,
    String.toList_ofList]

variable {m n : Nat} {s t : List UInt8} {c d : Char} {cs ds : List Char} {a b : String}

theorem ofNat_cons_lt (hn : n < 256) (hle : m ≤ n) (h : m = n → s < t) :
    UInt8.ofNat m :: s < UInt8.ofNat n :: t := by
  rw [List.cons_lt_cons_iff, UInt8.lt_iff_toNat_lt, UInt8.toNat_ofNat', UInt8.toNat_ofNat']
  rcases Nat.lt_or_eq_of_le hle with hlt | rfl
  · exact .inl (by omega)
  · exact .inr ⟨rfl, h rfl⟩

theorem utf8EncodeChar_append_lt (h : c < d) (s t : List UInt8) :
    String.utf8EncodeChar c ++ s < String.utf8EncodeChar d ++ t := by
  have hlt : c.val.toNat < d.val.toNat := h
  have hd : d.val.toNat < 1114112 := by
    rcases d.valid with hvalid | ⟨-, hvalid⟩ <;> omega
  simp only [String.utf8EncodeChar]
  generalize c.val.toNat = m at *
  generalize d.val.toNat = n at *
  -- by the number of bytes of the greater character; the other one has as many or fewer
  by_cases h1 : n ≤ 127
  · rw [if_pos (by omega), if_pos h1]
    exact ofNat_cons_lt (by omega) (by omega) (by omega)
  by_cases h2 : n ≤ 2047
  · rw [if_neg h1, if_pos h2]
    split
    · exact ofNat_cons_lt (by omega) (by omega) (by omega)
    · rw [if_pos (by omega)]
      exact ofNat_cons_lt (by omega) (by omega) fun _ =>
        ofNat_cons_lt (by omega) (by omega) (by omega)
  by_cases h3 : n ≤ 65535
  · rw [if_neg h1, if_neg h2, if_pos h3]
    split
    · exact ofNat_cons_lt (by omega) (by omega) (by omega)
    · split
      · exact ofNat_cons_lt (by omega) (by omega) (by omega)
      · rw [if_pos (by omega)]
        exact ofNat_cons_lt (by omega) (by omega) fun _ =>
          ofNat_cons_lt (by omega) (by omega) fun _ =>
          ofNat_cons_lt (by omega) (by omega) (by omega)
  · rw [if_neg h1, if_neg h2, if_neg h3]
    split
    · exact ofNat_cons_lt (by omega) (by omega) (by omega)
    · split
      · exact ofNat_cons_lt (by omega) (by omega) (by omega)
      · split
        · exact ofNat_cons_lt (by omega) (by omega) (by omega)
        · exact ofNat_cons_lt (by omega) (by omega) fun _ =>
            ofNat_cons_lt (by omega) (by omega) fun _ =>
            ofNat_cons_lt (by omega) (by omega) fun _ =>
            ofNat_cons_lt (by omega) (by omega) (by omega)

theorem utf8EncodeChar_ne_nil : String.utf8EncodeChar c ≠ [] := by
  have hlength := String.length_utf8EncodeChar c
  have hpos := c.utf8Size_pos
  exact List.ne_nil_of_length_pos (by omega)

theorem flatMap_utf8EncodeChar_lt (h : cs < ds) :
    cs.flatMap String.utf8EncodeChar < ds.flatMap String.utf8EncodeChar := by
  induction h with
  | @nil d ds =>
    obtain ⟨byte, rest, hcons⟩ := List.exists_cons_of_ne_nil (utf8EncodeChar_ne_nil (c := d))
    rw [List.flatMap_nil, List.flatMap_cons, hcons]
    exact .nil
  | cons _ ih =>
    rw [List.flatMap_cons, List.flatMap_cons]
    exact List.append_left_lt ih
  | rel h =>
    rw [List.flatMap_cons, List.flatMap_cons]
    exact utf8EncodeChar_append_lt h _ _

/-- Texts stand in the order of their bytes. -/
theorem bytes_lt_iff : bytes a < bytes b ↔ a < b := by
  have hbytes {a b : String} (h : a < b) : bytes a < bytes b := by
    rw [bytes_eq_flatMap, bytes_eq_flatMap]
    exact flatMap_utf8EncodeChar_lt (String.lt_iff_toList_lt.1 h)
  constructor
  · intro h
    rcases lt_trichotomy a b with hlt | rfl | hgt
    · exact hlt
    · exact (List.lt_irrefl _ h).elim
    · exact (List.lt_asymm h (hbytes hgt)).elim
  · exact hbytes

end ApiModels.Text
