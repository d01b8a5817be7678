import Mathlib.Data.List.Basic
import Mathlib.Data.String.Basic

/-!
# Slices of a text by byte positions

A slice is taken from one byte position to another, and there is none unless both positions are in
the text and between two of its characters, in this order. So there is a slice exactly where the text
is a join of three with the slice in the middle (`slice?_eq_some_iff`).
-/

namespace ApiModels.Text

variable {text part : String} {start stop i : Nat} {c d : Char} {cs ds before after : List Char}

/-- What stands between two byte positions, if both are boundaries of characters of the text and the
first is not behind the second. -/
def slice? (text : String) (start stop : Nat) : Option String :=
  if h : String.Pos.Raw.IsValid text ⟨start⟩ ∧ String.Pos.Raw.IsValid text ⟨stop⟩ ∧ start ≤ stop then
    some (text.slice ⟨⟨start⟩, h.1⟩ ⟨⟨stop⟩, h.2.1⟩ h.2.2).copy
  else none

theorem slice?_eq_some_iff : slice? text start stop = some part ↔
    ∃ before after, text = before ++ part ++ after ∧ start = before.utf8ByteSize ∧
      stop = (before ++ part).utf8ByteSize := by
  constructor
  · intro h
    rw [slice?] at h
    split at h
    · next hvalid =>
      obtain ⟨before, after, hstart, hstop⟩ := String.copy_slice_eq_iff_splits.1
        ⟨hvalid.2.2, Option.some.inj h⟩
      have hstart' := congrArg String.Pos.Raw.byteIdx hstart.offset_eq_rawEndPos
      have hstop' := congrArg String.Pos.Raw.byteIdx hstop.offset_eq_rawEndPos
      exact ⟨before, after, hstop.eq_append, hstart', hstop'⟩
    · cases h
  · rintro ⟨before, after, rfl, rfl, rfl⟩
    have hstart : String.Pos.Raw.IsValid (before ++ part ++ after) ⟨before.utf8ByteSize⟩ :=
      String.Pos.Raw.isValid_iff_exists_append.2 ⟨before, part ++ after, String.append_assoc, rfl⟩
    have hstop : String.Pos.Raw.IsValid (before ++ part ++ after) ⟨(before ++ part).utf8ByteSize⟩ :=
      String.Pos.Raw.isValid_iff_exists_append.2 ⟨before ++ part, after, rfl, rfl⟩
    have hle : before.utf8ByteSize ≤ (before ++ part).utf8ByteSize := by
      rw [String.utf8ByteSize_append]
      exact Nat.le_add_right _ _
    rw [slice?, dif_pos ⟨hstart, hstop, hle⟩]
    have hfirst : (String.Pos.mk _ hstart).Splits before (part ++ after) :=
      ⟨String.append_assoc, rfl⟩
    have hlast : (String.Pos.mk _ hstop).Splits (before ++ part) after := ⟨rfl, rfl⟩
    obtain ⟨_, hcopy⟩ := String.copy_slice_eq_iff_splits.2 ⟨before, after, hfirst, hlast⟩
    exact congrArg some hcopy

theorem slice?_ofList (before cs after : List Char) :
    slice? (String.ofList (before ++ cs ++ after)) (String.ofList before).utf8ByteSize
      (String.ofList (before ++ cs)).utf8ByteSize = some (String.ofList cs) := by
  refine slice?_eq_some_iff.2 ⟨String.ofList before, String.ofList after, ?_, rfl, ?_⟩
  · rw [String.ofList_append, String.ofList_append]
  · rw [String.ofList_append]

/-! ## Byte positions of characters -/

theorem utf8ByteSize_ofList_append (cs ds : List Char) : (String.ofList (cs ++ ds)).utf8ByteSize =
    (String.ofList cs).utf8ByteSize + (String.ofList ds).utf8ByteSize := by
  rw [String.ofList_append, String.utf8ByteSize_append]

theorem utf8ByteSize_ofList_cons (c : Char) (cs : List Char) :
    (String.ofList (c :: cs)).utf8ByteSize = c.utf8Size + (String.ofList cs).utf8ByteSize := by
  rw [String.ofList_cons, String.utf8ByteSize_append, String.utf8ByteSize_singleton]

/-- The characters of a text that begins at `start`, each with the byte position of its beginning. -/
def charIndices (start : Nat) : List Char → List (Nat × Char)
  | [] => []
  | c :: cs => (start, c) :: charIndices (start + c.utf8Size) cs

/-- The byte positions at which `c` begins in a text that begins at `start`. -/
def positions (c : Char) (start : Nat) (cs : List Char) : List Nat :=
  ((charIndices start cs).filter (·.2 = c)).map Prod.fst

theorem charIndices_append (start : Nat) (cs ds : List Char) : charIndices start (cs ++ ds) =
    charIndices start cs ++ charIndices (start + (String.ofList cs).utf8ByteSize) ds := by
  induction cs generalizing start with
  | nil => rfl
  | cons c cs ih =>
    rw [List.cons_append, charIndices, ih, charIndices, utf8ByteSize_ofList_cons, Nat.add_assoc]
    rfl

theorem positions_append (c : Char) (start : Nat) (cs ds : List Char) :
    positions c start (cs ++ ds) =
      positions c start cs ++ positions c (start + (String.ofList cs).utf8ByteSize) ds := by
  rw [positions, charIndices_append, List.filter_append, List.map_append]
  rfl

theorem positions_cons_self (c : Char) (start : Nat) (cs : List Char) :
    positions c start (c :: cs) = start :: positions c (start + c.utf8Size) cs := by
  simp [positions, charIndices]

theorem positions_cons_of_ne (h : d ≠ c) (start : Nat) (cs : List Char) :
    positions c start (d :: cs) = positions c (start + d.utf8Size) cs := by
  simp [positions, charIndices, h]

theorem positions_of_not_mem (h : c ∉ cs) (start : Nat) : positions c start cs = [] := by
  induction cs generalizing start with
  | nil => rfl
  | cons d cs ih =>
    rw [List.mem_cons, not_or] at h
    rw [positions_cons_of_ne (Ne.symm h.1), ih h.2]

theorem lt_of_mem_positions (h : i ∈ positions c start cs) :
    i < start + (String.ofList cs).utf8ByteSize := by
  induction cs generalizing start with
  | nil => cases h
  | cons d cs ih =>
    have hsize := utf8ByteSize_ofList_cons d cs
    have hpos := d.utf8Size_pos
    by_cases hd : d = c
    · subst hd
      rw [positions_cons_self] at h
      rcases List.mem_cons.1 h with rfl | h
      · omega
      · have := ih h
        omega
    · rw [positions_cons_of_ne hd] at h
      have := ih h
      omega

theorem head?_positions (h : c ∉ before) (after : List Char) :
    (positions c 0 (before ++ c :: after)).head? = some (String.ofList before).utf8ByteSize := by
  rw [positions_append, positions_of_not_mem h, positions_cons_self, Nat.zero_add]
  rfl

theorem getLast?_positions (h : c ∉ after) (before : List Char) :
    (positions c 0 (before ++ c :: after)).getLast? = some (String.ofList before).utf8ByteSize := by
  rw [positions_append, positions_cons_self, positions_of_not_mem h, Nat.zero_add,
    List.getLast?_concat]

end ApiModels.Text
